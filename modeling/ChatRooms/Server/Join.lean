import ChatRooms.Server.Steps

/-!
# Joining a room

`handle_join_message` decides by the arrays and counters of the rooms.  In every reachable state it
answers what the records of the users dictate, and a user that joins moves from one room to another
while everything else stays: `join_dictated`.  A refused join leaves the state as it was unless the user
is in one room and asks for another one that is full: `join_refused_iff`.
-/

namespace ChatRooms

/-! ## The answer that the user table dictates -/

/-- The answers of `handle_join_message`. -/
inductive JoinAnswer where
  | missing
  | already
  | full
  | joined
deriving DecidableEq, Repr

/-- The format of the reply that gives an answer. -/
def JoinAnswer.format : JoinAnswer → Bytes
  | .missing => missingRoomReply
  | .already => alreadyInReply
  | .full => fullRoomReply
  | .joined => joinedReply

/-- The answer to a user that asks for room `n`, by the records of the connected users. -/
def dictatedAnswer (table : UserTable) (user : User) (n : UInt8) : JoinAnswer :=
  if n = 0 ∨ numRooms < n.toNat then .missing
  else if user.room = n then .already
  else if (table.inRoom n).length = maxUsersPerRoom then .full
  else .joined

/-- The outputs that give an answer to a user that asks for room `n`: one reply with the text of the answer, if
there is memory for its frame. -/
def JoinAnswer.Given (answer : JoinAnswer) (env : Env) (client : Fd) (n : UInt8) (outs : List Output) : Prop :=
  ∃ msg : ReplyMessage, Terminated msg.reply ∧ cstr msg.reply.toList = roomText answer.format n ∧
    outs = if env.heap.serves ((Content.reply (roomText answer.format n)).frame env.host).length then
      [.write client (.reply msg) ((Content.reply (roomText answer.format n)).frame env.host)
        (sendall (env.send client) ((Content.reply (roomText answer.format n)).frame env.host)
          ((Content.reply (roomText answer.format n)).frame env.host).length).1]
    else []

/-- The record of a user that has got an answer: a refusal for a full room takes it out of its own. -/
def JoinAnswer.record (answer : JoinAnswer) (user : User) (n : UInt8) : User :=
  match answer with
  | .missing | .already => user
  | .full => { user with room := invalidRoom }
  | .joined => { user with room := n }

/-- Different answers are different texts. -/
theorem JoinAnswer.text_inj {a b : JoinAnswer} {n : UInt8} (h : roomText a.format n = roomText b.format n) :
    a = b := by
  have hmissing := roomText_of_format (format_missingRoomReply n)
  have halready := roomText_of_format (format_alreadyInReply n)
  have hfull := roomText_of_format (format_fullRoomReply n)
  have hjoined := roomText_of_format (format_joinedReply n)
  cases a <;> cases b <;>
    simp_all [JoinAnswer.format, ascii]

theorem JoinAnswer.format_mem (answer : JoinAnswer) : answer.format ∈ joinFormats := by
  cases answer <;> simp [JoinAnswer.format, joinFormats]

theorem JoinAnswer.given_of_sent {env : Env} {client : Fd} {answer : JoinAnswer} {n : UInt8} {outs : List Output}
    (h : sendReplyMessage env client answer.format [.int n.toNat] = .ok outs) : answer.Given env client n outs := by
  obtain ⟨htext, hnul, hlt⟩ := format_room answer.format_mem n
  obtain ⟨msg, hterm, hreply, hsend⟩ := sendReplyMessage_eq env client htext hnul hlt
  rw [hsend, Except.ok.injEq] at h
  exact ⟨msg, hterm, hreply, h.symm⟩

/-- A reply that is sent tells which answer it gives. -/
theorem JoinAnswer.eq_of_sent {env : Env} {client : Fd} {a b : JoinAnswer} {n : UInt8} {outs : List Output}
    (ha : sendReplyMessage env client a.format [.int n.toNat] = .ok outs)
    (hb : sendReplyMessage env client b.format [.int n.toNat] = .ok outs) (hsent : outs ≠ []) : a = b := by
  have hreplies {answer : JoinAnswer}
      (h : sendReplyMessage env client answer.format [.int n.toNat] = .ok outs) :
      Replies env client (roomText answer.format n) outs := by
    obtain ⟨outs', hspec, hrep⟩ := sendReplyMessage_room env client answer.format_mem n
    rw [hspec, Except.ok.injEq] at h
    rwa [h] at hrep
  obtain ⟨msg, -, htext, houts⟩ := (hreplies ha).resolve_left hsent
  obtain ⟨msg', -, htext', houts'⟩ := (hreplies hb).resolve_left hsent
  rw [houts, List.singleton_inj] at houts'
  obtain rfl := Message.reply.inj (Output.write.inj houts').2.1
  exact JoinAnswer.text_inj (htext.symm.trans htext')

section Agree

variable {rooms rooms' : RoomArray} {table : UserTable}

/-- The counter of a room counts the users whose record names it. -/
theorem Agree.numUsers_eq (h : Agree rooms table) {i : ℕ} {room : Room}
    (hi : rooms.rooms[i]? = some room) : room.numUsers = (table.inRoom room.id).length := by
  rw [← length_members (h.numUsers_le hi), (h.members hi).length_eq]

/-- The cell of a room is that of the same room in any other room array. -/
theorem Agree.id_eq {table' : UserTable} (h : Agree rooms table) (h' : Agree rooms' table') {i : ℕ}
    {room room' : Room} (hi : rooms.rooms[i]? = some room) (hi' : rooms'.rooms[i]? = some room') :
    room'.id = room.id := by
  apply UInt8.toNat_inj.1
  rw [h.id hi, h'.id hi']

theorem JoinOutcome.dictated (h : Agree rooms table) {user user' : User} {n : UInt8} {fmt : Bytes}
    (outcome : JoinOutcome rooms user n user' fmt) :
    fmt = (dictatedAnswer table user n).format ∧ user' = (dictatedAnswer table user n).record user n := by
  unfold dictatedAnswer
  cases outcome with
  | missing absent =>
    rw [if_pos absent]
    exact ⟨rfl, rfl⟩
  | already exists_ inside =>
    rw [if_neg (not_or.2 ⟨exists_.1, not_lt.2 exists_.2⟩), if_pos inside]
    exact ⟨rfl, rfl⟩
  | full exists_ outside cell id full =>
    have hcount := h.numUsers_eq cell
    rw [id, full] at hcount
    rw [if_neg (not_or.2 ⟨exists_.1, not_lt.2 exists_.2⟩), if_neg outside, if_pos hcount.symm]
    exact ⟨rfl, rfl⟩
  | joined exists_ outside cell id free =>
    have hcount := h.numUsers_eq cell
    rw [id] at hcount
    rw [if_neg (not_or.2 ⟨exists_.1, not_lt.2 exists_.2⟩), if_neg outside, if_neg (by omega)]
    exact ⟨rfl, rfl⟩

/-- When the record of one user changes, each room keeps its other users. -/
theorem Agree.members_set (h : Agree rooms table) {u u' : User} (hu : u ∈ table.users)
    (hid : u'.id = u.id) (h' : Agree rooms' (table.set u')) {i : ℕ} {room : Room}
    (hi : rooms.rooms[i]? = some room) :
    ∃ room' rest, rooms'.rooms[i]? = some room' ∧ room'.id = room.id ∧
      room.members.Perm (if u.room = room.id then u.id :: rest else rest) ∧
      room'.members.Perm (if u'.room = room.id then u.id :: rest else rest) := by
  have hlt : i < rooms'.rooms.length := by
    have := (List.getElem?_eq_some_iff.1 hi).1
    rw [h.length] at this
    rwa [h'.length]
  have hi' := List.getElem?_eq_getElem hlt
  have hroom := h.id_eq h' hi hi'
  obtain ⟨rest, hself, hset, -⟩ := UserTable.inRoom_set hu
  have hafter := h'.members hi'
  rw [hroom] at hafter
  exact ⟨_, rest room.id, hi', hroom, (h.members hi).trans (hself room.id), hafter.trans (hset u' hid room.id)⟩

/-- What a join message does, by the answer that the user table dictates. -/
theorem handleJoinMessage_dictated (env : Env) (h : Agree rooms table) {user : User}
    (hu : user ∈ table.users) {buf : Bytes} {n : UInt8} (hbuf : buf[5]? = some n) :
    ∃ rooms' outs, handleJoinMessage env buf rooms user =
        .ok (rooms', (dictatedAnswer table user n).record user n, outs) ∧
      sendReplyMessage env user.id (dictatedAnswer table user n).format [.int n.toNat] = .ok outs ∧
      Agree rooms' (table.set ((dictatedAnswer table user n).record user n)) ∧
      RoomsKept rooms rooms' user ((dictatedAnswer table user n).record user n) := by
  obtain ⟨rooms', user', outs, fmt, hspec, hagree, outcome, hkept, hsend, -⟩ :=
    handleJoinMessage_effect env h hu hbuf
  obtain ⟨rfl, rfl⟩ := outcome.dictated h
  exact ⟨rooms', outs, hspec, hsend, hagree, hkept⟩

end Agree

/-! ## The outcome of a join -/

/-- A user has moved to room `n`: its id and its name and all other records are the same, room `n` has
one member more, the room it was in has one member less, and every other room is the same. -/
structure Moved (rooms rooms' : RoomArray) (table : UserTable) (u u' : User) (n : UInt8) : Prop where
  record : userTableFind (table.set u') u.id = some u'
  room : u'.room = n
  same : u'.id = u.id ∧ u'.name = u.name
  others : ∀ v : User, v.id ≠ u.id → (v ∈ (table.set u').users ↔ v ∈ table.users)
  length : rooms'.rooms.length = rooms.rooms.length
  cells : ∀ {i : ℕ} {room : Room}, rooms.rooms[i]? = some room → ∃ room', rooms'.rooms[i]? = some room' ∧
    room'.id = room.id ∧ (room.id = n → room'.members.Perm (u.id :: room.members)) ∧
    (room.id = u.room → (u.id :: room'.members).Perm room.members) ∧
    (room.id ≠ n → room.id ≠ u.room → room' = room)

theorem moved_of_agree {rooms rooms' : RoomArray} {table : UserTable} (h : Agree rooms table) {u : User}
    (hu : u ∈ table.users) {n : UInt8} (houtside : u.room ≠ n)
    (h' : Agree rooms' (table.set { u with room := n })) (hkept : RoomsKept rooms rooms' u { u with room := n }) :
    Moved rooms rooms' table u { u with room := n } n where
  record := userTableFind_eq_some.2 ⟨UserTable.mem_set_self hu rfl, rfl⟩
  room := rfl
  same := ⟨rfl, rfl⟩
  others := by
    intro v hv
    rw [UserTable.mem_set]
    constructor
    · rintro (⟨rfl, -⟩ | ⟨hmem, -⟩)
      · exact absurd rfl hv
      · exact hmem
    · exact fun hmem => .inr ⟨hmem, hv⟩
  length := h'.length.trans h.length.symm
  cells := by
    intro i room hi
    obtain ⟨room', rest, hi', hid, hbefore, hafter⟩ :=
      h.members_set hu (show ({ u with room := n } : User).id = u.id from rfl) h' hi
    dsimp only at hafter
    refine ⟨room', hi', hid, fun hn => ?_, fun hroom => ?_, fun hn hroom => ?_⟩
    · rw [if_neg fun he => houtside (he.trans hn)] at hbefore
      rw [if_pos hn.symm] at hafter
      exact hafter.trans (hbefore.symm.cons _)
    · rw [if_pos hroom.symm] at hbefore
      rw [if_neg fun he => houtside (hroom.symm.trans he.symm)] at hafter
      exact (hafter.cons _).trans hbefore.symm
    · have hsame := hkept hi (.inr ⟨hroom, hn⟩)
      rw [hi', Option.some.injEq] at hsame
      exact hsame

/-- A join has exactly the outcome that the user table dictates.  In every reachable state, for every
connected user and every room id, the user gets one reply with the text of the dictated answer, as far as there
is memory for it, and no other answer sends the same; and a user that joins moves to the room. -/
theorem join_dictated {s₀ s : Server} {trace : List (Turn Server (Env × Event) (List Output))}
    (h₀ : Initial pollfdArrayAppend s₀) (run : Run (Step pollfdArrayAppend) s₀ trace s) (env : Env)
    {u : User} (hu : u ∈ s.userTable.users) {buf : Bytes} {n : UInt8} (hbuf : buf[5]? = some n) :
    ∃ rooms' u' outs, handleJoinMessage env buf s.rooms u = .ok (rooms', u', outs) ∧
      sendReplyMessage env u.id (dictatedAnswer s.userTable u n).format [.int n.toNat] = .ok outs ∧
      (dictatedAnswer s.userTable u n).Given env u.id n outs ∧
      (outs ≠ [] → ∀ answer : JoinAnswer,
        sendReplyMessage env u.id answer.format [.int n.toNat] = .ok outs →
          answer = dictatedAnswer s.userTable u n) ∧
      (dictatedAnswer s.userTable u n = .joined → Moved s.rooms rooms' s.userTable u u' n) := by
  have h := run.agree h₀
  obtain ⟨rooms', outs, hspec, hsend, hagree, hkept⟩ := handleJoinMessage_dictated env h hu hbuf
  refine ⟨rooms', _, outs, hspec, hsend, JoinAnswer.given_of_sent hsend,
    fun hsent answer hanswer => JoinAnswer.eq_of_sent hanswer hsend hsent, fun hjoined => ?_⟩
  rw [hjoined] at hagree hkept ⊢
  have houtside : u.room ≠ n := by
    intro he
    unfold dictatedAnswer at hjoined
    rw [if_pos he] at hjoined
    split at hjoined <;> cases hjoined
  exact moved_of_agree h hu houtside hagree hkept

/-- A user of room 2, in which there is another user, asks for room 1, which has a user, too. -/
theorem join_dictated_one : ∃ s trace u, Run (Step pollfdArrayAppend) (.start 3) trace s ∧ ThreeUsers s ∧
    userTableFind s.userTable 4 = some u ∧ dictatedAnswer s.userTable u 1 = .joined ∧
    ∃ rooms' u' outs, handleJoinMessage (.steady 0) [0, 0, 0, 6, 3, 1] s.rooms u = .ok (rooms', u', outs) ∧
      JoinAnswer.joined.Given (.steady 0) 4 1 outs ∧ Moved s.rooms rooms' s.userTable u u' 1 := by
  obtain ⟨s, trace, run, hthree⟩ := run_threeUsers
  obtain ⟨u, hfind, hroom⟩ := hthree.user
  obtain ⟨hu, hid⟩ := userTableFind_eq_some.1 hfind
  have hjoined : dictatedAnswer s.userTable u 1 = .joined := by
    rw [dictatedAnswer, hroom, hthree.inRoom, if_neg (by decide), if_neg (by decide), if_neg (by decide)]
  obtain ⟨rooms', u', outs, hspec, -, hgiven, -, hmoved⟩ := join_dictated (Server.start_initial 3) run (.steady 0)
    hu (rfl : ([0, 0, 0, 6, 3, 1] : Bytes)[5]? = some 1)
  rw [hjoined, hid] at hgiven
  exact ⟨s, trace, u, run, hthree, hfind, hjoined, rooms', u', outs, hspec, hgiven, hmoved hjoined⟩

/-! ## Refused joins -/

/-- A join that does not end in the requested room has changed neither the room of the user nor the
members of any room. -/
def CleanRefusal (rooms rooms' : RoomArray) (u u' : User) (n : UInt8) : Prop :=
  ¬ ((n ≠ 0 ∧ n.toNat ≤ numRooms) ∧ u'.room = n) →
    u'.room = u.room ∧ ∀ {i : ℕ} {room : Room}, rooms.rooms[i]? = some room →
      ∃ room', rooms'.rooms[i]? = some room' ∧ room'.members.Perm room.members

/-- In every reachable state, for every connected user and every room id, a refused join leaves the state
as it was exactly when the user is in no room or in the requested one, or the requested room does not
exist, or it has a free place. -/
theorem join_refused_iff {s₀ s : Server} {trace : List (Turn Server (Env × Event) (List Output))}
    (h₀ : Initial pollfdArrayAppend s₀) (run : Run (Step pollfdArrayAppend) s₀ trace s) (env : Env)
    {u : User} (hu : u ∈ s.userTable.users) {buf : Bytes} {n : UInt8} (hbuf : buf[5]? = some n) :
    ∃ rooms' u' outs, handleJoinMessage env buf s.rooms u = .ok (rooms', u', outs) ∧
      (CleanRefusal s.rooms rooms' u u' n ↔ u.room = invalidRoom ∨ u.room = n ∨
        (n = 0 ∨ numRooms < n.toNat) ∨ (s.userTable.inRoom n).length ≠ maxUsersPerRoom) := by
  have h := run.agree h₀
  obtain ⟨rooms', outs, hspec, -, -, hkept⟩ := handleJoinMessage_dictated env h hu hbuf
  refine ⟨rooms', _, outs, hspec, ?_⟩
  have hsame (hroom : ((dictatedAnswer s.userTable u n).record u n).room = u.room) :
      CleanRefusal s.rooms rooms' u ((dictatedAnswer s.userTable u n).record u n) n :=
    fun _ => ⟨hroom, fun hi => ⟨_, hkept hi (.inl hroom), .refl _⟩⟩
  unfold dictatedAnswer at hsame ⊢
  by_cases habsent : n = 0 ∨ numRooms < n.toNat
  · rw [if_pos habsent] at hsame ⊢
    exact iff_of_true (hsame rfl) (.inr (.inr (.inl habsent)))
  rw [if_neg habsent] at hsame ⊢
  by_cases hin : u.room = n
  · rw [if_pos hin] at hsame ⊢
    exact iff_of_true (hsame rfl) (.inr (.inl hin))
  rw [if_neg hin] at hsame ⊢
  by_cases hfull : (s.userTable.inRoom n).length = maxUsersPerRoom
  · rw [if_pos hfull] at hsame ⊢
    by_cases hroom : u.room = invalidRoom
    · exact iff_of_true (hsame hroom.symm) (.inl hroom)
    · refine iff_of_false (fun hclean => ?_) (by simp [hroom, hin, habsent, hfull])
      refine hroom (hclean fun hend => ?_).1.symm
      exact habsent (.inl hend.2.symm)
  · rw [if_neg hfull]
    rw [not_or, not_lt] at habsent
    exact iff_of_true (fun hrefused => absurd ⟨habsent, rfl⟩ hrefused) (.inr (.inr (.inr hfull)))

/-- A user that shares room 2 with another one asks for room 9. -/
theorem join_refused_iff_missing : ∃ s trace u, Run (Step pollfdArrayAppend) (.start 3) trace s ∧ ThreeUsers s ∧
    userTableFind s.userTable 4 = some u ∧
    ∃ rooms' u' outs, handleJoinMessage (.steady 0) [0, 0, 0, 6, 3, 9] s.rooms u = .ok (rooms', u', outs) ∧
      CleanRefusal s.rooms rooms' u u' 9 := by
  obtain ⟨s, trace, run, hthree⟩ := run_threeUsers
  obtain ⟨u, hfind, -⟩ := hthree.user
  obtain ⟨rooms', u', outs, hspec, hclean⟩ := join_refused_iff (Server.start_initial 3) run (.steady 0)
    (userTableFind_eq_some.1 hfind).1 (rfl : ([0, 0, 0, 6, 3, 9] : Bytes)[5]? = some 9)
  exact ⟨s, trace, u, run, hthree, hfind, rooms', u', outs, hspec,
    hclean.2 (.inr (.inr (.inl (.inr (by decide)))))⟩

/-! ## A full room -/

/-- Rooms and users agree, and no descriptor from `bound` on is open. -/
structure Below (bound : Fd) (s : Server) : Prop where
  agree : Agree s.rooms s.userTable
  opened : ∀ fd ∈ s.userTable.ids, fd ∈ s.openFds
  below : ∀ fd ∈ s.openFds, fd < bound

/-- A new descriptor is added to the table. -/
theorem userTableAdd_of_notMem {t : UserTable} {fd : Fd} (h : fd ∉ t.ids) :
    ∃ t', userTableAdd .steady t fd = .ok (some t') := by
  unfold userTableAdd
  split
  · rename_i u hfind
    obtain ⟨hu, rfl⟩ := userTableFind_eq_some.1 hfind
    exact absurd (UserTable.mem_ids hu) h
  · obtain ⟨name, hcopy, -⟩ := copyInto_of_le (n := nameSizeLimit)
      (CArray.fill Heap.steady.fresh) (anonymous ++ [0]) (by decide)
    rw [if_pos (by decide), hcopy]
    exact ⟨_, rfl⟩

/-- An append for which the allocator has memory returns 0. -/
theorem pollfdArrayAppend_status (a : PollfdArray) (fd : Fd) (events : Events) (fresh : ℕ → Pollfd) :
    (pollfdArrayAppend a fd events (.inPlace fresh)).2 = 0 := by
  by_cases hgrow : u32 (a.len + 1) > a.capacity
  · simp [pollfdArrayAppend, growForAppend, hgrow, resize]
  · simp [pollfdArrayAppend, growForAppend, hgrow]

namespace Below

variable {bound : Fd} {s : Server}

/-- A client connects with the next descriptor. -/
theorem connect (h : Below bound s) :
    ∃ s' u, Step pollfdArrayAppend s (.steady 0, .connect bound) [] s' ∧ Below (bound + 1) s' ∧
      s'.userTable.users = s.userTable.users ++ [u] ∧ u.id = bound ∧ u.room = invalidRoom := by
  have hfresh : bound ∉ s.openFds := fun hmem => lt_irrefl _ (h.below _ hmem)
  obtain ⟨table', hadd⟩ := userTableAdd_of_notMem fun hmem => hfresh (h.opened _ hmem)
  obtain ⟨-, name, -, -, husers⟩ := userTableAdd_eq_some hadd
  have happ := pollfdArrayAppend_status s.pollfds bound pollin fun _ => ⟨0, 0, 0⟩
  have hstep : Step pollfdArrayAppend s (.steady 0, .connect bound) []
      { s with
        pollfds := (pollfdArrayAppend s.pollfds bound pollin (.inPlace fun _ => ⟨0, 0, 0⟩)).1
        userTable := table'
        openFds := bound :: s.openFds } := by
    apply Step.connect _ _ hfresh
    unfold handleNewClient
    show (if (pollfdArrayAppend s.pollfds bound pollin (.inPlace fun _ => ⟨0, 0, 0⟩)).2 ≠ 0 then _ else _) = _
    rw [if_neg (not_not.2 happ)]
    show (userTableAdd .steady s.userTable bound >>= _) = _
    rw [hadd]
    rfl
  refine ⟨_, _, hstep, ⟨hstep.agree h.agree, fun fd hfd => ?_, fun fd hfd => ?_⟩, husers, rfl, rfl⟩
  · change fd ∈ table'.users.map User.id at hfd
    rw [husers, List.map_append, List.mem_append] at hfd
    rcases hfd with hfd | hfd
    · exact List.mem_cons_of_mem _ (h.opened _ hfd)
    · rw [List.mem_singleton.1 hfd]
      exact List.mem_cons_self
  · rcases List.mem_cons.1 hfd with rfl | hfd
    · exact lt_add_one _
    · exact (h.below _ hfd).trans (lt_add_one _)

/-- A user in no room joins a room with a free place. -/
theorem join (h : Below bound s) {u : User} (hu : u ∈ s.userTable.users) (hroom : u.room = invalidRoom)
    {n : UInt8} (hexists : n ≠ 0 ∧ n.toNat ≤ numRooms) (hfree : (s.userTable.inRoom n).length ≠ maxUsersPerRoom) :
    ∃ s' outs, Step pollfdArrayAppend s
        (.steady 0, .message u.id (.message [0, 0, 0, 6, 3, n] 6)) outs s' ∧ Below bound s' ∧
      s'.userTable = s.userTable.set { u with room := n } := by
  have hfind : userTableFind s.userTable u.id = some u := userTableFind_eq_some.2 ⟨hu, rfl⟩
  obtain ⟨rooms', outs, hspec, -, hagree, -⟩ :=
    handleJoinMessage_dictated (.steady 0) h.agree hu (rfl : ([0, 0, 0, 6, 3, n] : Bytes)[5]? = some n)
  have hjoined : dictatedAnswer s.userTable u n = .joined := by
    rw [dictatedAnswer, if_neg (not_or.2 ⟨hexists.1, not_lt.2 hexists.2⟩),
      if_neg (hroom ▸ Ne.symm hexists.1), if_neg hfree]
  rw [hjoined] at hspec hagree
  refine ⟨{ s with rooms := rooms', userTable := s.userTable.set { u with room := n } }, outs,
    .message _ _ _ ?_ (by decide : (1 : ℤ) ≠ -1) (Env.steady_returned _ _), ⟨hagree, fun fd hfd => ?_, h.below⟩, rfl⟩
  · have htype : getMessageType [0, 0, 0, 6, 3, n] = .ok .join := rfl
    simp only [handleClientMessage, hfind, htype, Checked.ok_bind, hspec]
    rfl
  · dsimp only at hfd
    rw [UserTable.ids_set] at hfd
    exact h.opened fd hfd

/-- A client connects and joins a room with a free place: the room has one user more, and no other room
has changed. -/
theorem connect_join {s₀ : Server} {trace : List (Turn Server (Env × Event) (List Output))}
    (run : Run (Step pollfdArrayAppend) s₀ trace s) (h : Below bound s) {n : UInt8}
    (hexists : n ≠ 0 ∧ n.toNat ≤ numRooms) (hfree : (s.userTable.inRoom n).length ≠ maxUsersPerRoom) :
    ∃ s' trace', Run (Step pollfdArrayAppend) s₀ trace' s' ∧ Below (bound + 1) s' ∧
      (∃ u ∈ s'.userTable.users, u.room = n) ∧
      (s'.userTable.inRoom n).length = (s.userTable.inRoom n).length + 1 ∧
      ∀ m, m ≠ n → m ≠ 0 → (s'.userTable.inRoom m).length = (s.userTable.inRoom m).length := by
  obtain ⟨s₁, u, hconnect, h₁, husers, -, hroom⟩ := h.connect
  have hu : u ∈ s₁.userTable.users := by
    rw [husers]
    exact List.mem_append_right _ List.mem_cons_self
  have hsame : ∀ m, m ≠ 0 → s₁.userTable.inRoom m = s.userTable.inRoom m := by
    intro m hm
    rw [UserTable.inRoom, husers, List.filter_append, List.filter_cons_of_neg (by simpa [hroom] using hm.symm),
      List.filter_nil, List.append_nil]
    rfl
  obtain ⟨s₂, outs, hjoin, h₂, htable⟩ := h₁.join hu hroom hexists (by rwa [hsame n hexists.1])
  obtain ⟨rest, hself, hset, -⟩ := UserTable.inRoom_set hu
  have hbefore (m : UInt8) (hm : m ≠ 0) : (s.userTable.inRoom m).Perm (rest m) := by
    have := hself m
    rwa [hroom, if_neg hm.symm, hsame m hm] at this
  have hafter (m : UInt8) : (s₂.userTable.inRoom m).Perm (if n = m then u.id :: rest m else rest m) := by
    rw [htable]
    exact hset { u with room := n } rfl m
  refine ⟨s₂, _, (run.turn hconnect).turn hjoin, h₂, ⟨{ u with room := n }, ?_, rfl⟩, ?_, fun m hm h0 => ?_⟩
  · rw [htable]
    exact UserTable.mem_set_self hu rfl
  · rw [(hafter n).length_eq, if_pos rfl, List.length_cons, (hbefore n hexists.1).length_eq]
  · rw [(hafter m).length_eq, if_neg hm.symm, (hbefore m h0).length_eq]

end Below

/-- Room 1 can be filled with any number of users up to its capacity. -/
theorem exists_filled {k : ℕ} (hk : k ≤ maxUsersPerRoom) :
    ∃ s trace, Run (Step pollfdArrayAppend) (.start 3) trace s ∧ Below (4 + k) s ∧
      (s.userTable.inRoom 1).length = k ∧ (s.userTable.inRoom 2).length = 0 := by
  induction k with
  | zero =>
    refine ⟨_, _, .start, ⟨(Server.start_initial 3).agree, fun fd hfd => ?_, fun fd hfd => ?_⟩, rfl, rfl⟩
    · cases hfd
    · rw [List.mem_singleton.1 hfd]
      decide
  | succ k ih =>
    have hlt : k < 25 := hk
    obtain ⟨s, trace, run, hbelow, hone, htwo⟩ := ih hlt.le
    obtain ⟨s', trace', run', hbelow', -, hlen, hother⟩ :=
      hbelow.connect_join run (by decide : (1 : UInt8) ≠ 0 ∧ (1 : UInt8).toNat ≤ numRooms)
        (by rw [hone]; exact hlt.ne)
    refine ⟨s', trace', run', ?_, by rw [hlen, hone], by rw [hother 2 (by decide) (by decide), htwo]⟩
    rw [Nat.cast_succ, ← add_assoc]
    exact hbelow'

/-- Room 1 has been filled, and a user of room 2 asks for it: it is told that the room is full, and it is
in no room any more. -/
theorem join_full_room_leaves : ∃ s trace u, Run (Step pollfdArrayAppend) (.start 3) trace s ∧
    u ∈ s.userTable.users ∧ u.room = 2 ∧ (s.userTable.inRoom 1).length = maxUsersPerRoom ∧
    ∃ rooms' u' outs, handleJoinMessage (.steady 0) [0, 0, 0, 6, 3, 1] s.rooms u = .ok (rooms', u', outs) ∧
      sendReplyMessage (.steady 0) u.id fullRoomReply [.int 1] = .ok outs ∧ u'.room = invalidRoom ∧
      ¬ CleanRefusal s.rooms rooms' u u' 1 := by
  obtain ⟨s, trace, run, hbelow, hone, htwo⟩ := exists_filled (le_refl maxUsersPerRoom)
  obtain ⟨s', trace', run', hbelow', ⟨u, hu, hroom⟩, -, hother⟩ :=
    hbelow.connect_join run (by decide : (2 : UInt8) ≠ 0 ∧ (2 : UInt8).toNat ≤ numRooms) (by rw [htwo]; decide)
  have hfull : (s'.userTable.inRoom 1).length = maxUsersPerRoom := by
    rw [hother 1 (by decide) (by decide), hone]
  obtain ⟨rooms', outs, hspec, hsend, -, -⟩ :=
    handleJoinMessage_dictated (.steady 0) hbelow'.agree hu (rfl : ([0, 0, 0, 6, 3, 1] : Bytes)[5]? = some 1)
  have hanswer : dictatedAnswer s'.userTable u 1 = .full := by
    rw [dictatedAnswer, if_neg (by decide), hroom, if_neg (by decide), if_pos hfull]
  rw [hanswer] at hspec hsend
  refine ⟨s', trace', u, run', hu, hroom, hfull, rooms', _, outs, hspec, hsend, rfl, fun hclean => ?_⟩
  have hsame := (hclean fun hend => absurd (show (0 : UInt8) = 1 from hend.2) (by decide)).1
  rw [hroom] at hsame
  exact absurd (show (0 : UInt8) = 2 from hsame) (by decide)

end ChatRooms
