import ChatRooms.Client
import ChatRooms.Server.Steps

/-!
# Joining a room by its number

A `/join N` from the line that is typed to the record of the user: `execute_command` scans the
number into a byte, the join message carries the byte, and `handle_join_message` looks the room up by
it.  Nothing on the way compares the byte with the number, so the room that is looked up is `N`
modulo 256, or the one for the nearest number that fits a `long`: `typeJoin_iff` says for which numbers that is
harmless.
-/

namespace ChatRooms

/-- Types `/join N` at a client and hands the frame it sends to the server, as what `recvall` returned
for the client's socket. -/
def typeJoin (cenv : ClientEnv) (env : Env) (client : Fd) (n : ℤ) (newline : Bool) (s : Server) :
    Checked (Option (Server × List Output × ℤ)) := do
  match (← executeCommand cenv (joinLine n newline)).sent with
  | [sent] => handleClientMessage env client (.message sent.sent sent.sent.length) s
  | _ => return none

/-- The number names a room of the server. -/
def RoomNumber (n : ℤ) : Prop := 1 ≤ n ∧ n ≤ numRooms

/-- The room with a number is full. -/
def RoomFull (rooms : RoomArray) (n : ℤ) : Prop :=
  ∃ room ∈ rooms.rooms, (room.id.toNat : ℤ) = n ∧ room.numUsers = maxUsersPerRoom

/-- The user was outside a room before, and is in it now. -/
def Entered (before after : User) : Prop := after.room ≠ invalidRoom ∧ after.room ≠ before.room

/-- What `/join N` is to do: bring the user into room `N`, or, if there is no such room or it is full,
into none; and never into a room with another number. -/
def JoinsByNumber (rooms : RoomArray) (before after : User) (n : ℤ) : Prop :=
  ((after.room.toNat : ℤ) = n ∨ ¬ Entered before after ∧ (¬ RoomNumber n ∨ RoomFull rooms n)) ∧
    (Entered before after → (after.room.toNat : ℤ) = n)

/-- The number and the byte it is stored in denote the same room, or the byte leads nowhere: it
denotes no room, the room the user is in, or a full one. -/
def HarmlessNumber (rooms : RoomArray) (user : User) (n : ℤ) : Prop :=
  RoomNumber n ∨ ¬ RoomNumber (toLong n % 256) ∨ (user.room.toNat : ℤ) = toLong n % 256 ∨
    RoomFull rooms (toLong n % 256)

theorem toNat_storedByte (n : ℤ) : ((storedByte n).toNat : ℤ) = toLong n % 256 := by
  rw [storedByte, UInt8.toNat_ofNat']
  omega

/-- The number of a room is the byte it is stored in. -/
theorem RoomNumber.byte_eq {n : ℤ} (h : RoomNumber n) : toLong n % 256 = n := by
  have h1 : 1 ≤ n := h.1
  have h5 : n ≤ 5 := h.2
  rw [toLong_of_fits (by omega)]
  omega

/-- The check of `room_array_get_room` on the byte is the check of the number the byte denotes. -/
theorem storedByte_inside_iff (n : ℤ) :
    storedByte n ≠ 0 ∧ (storedByte n).toNat ≤ numRooms ↔ RoomNumber (toLong n % 256) := by
  rw [RoomNumber, ← toNat_storedByte n, ne_eq, ← UInt8.toNat_inj]
  show _ ∧ (storedByte n).toNat ≤ 5 ↔ _ ∧ _ ≤ ((5 : ℕ) : ℤ)
  have hzero : (0 : UInt8).toNat = 0 := rfl
  omega

theorem not_entered {before after : User}
    (h : after.room = invalidRoom ∨ after.room = before.room) : ¬ Entered before after := by
  intro hentered
  exact h.elim hentered.1 hentered.2

/-- A user that enters no room is treated as `/join N` says when there is nothing to enter. -/
theorem joinsByNumber_of_not_entered {rooms : RoomArray} {before after : User} {n : ℤ}
    (hout : ¬ Entered before after) (h : ¬ RoomNumber n ∨ RoomFull rooms n) :
    JoinsByNumber rooms before after n :=
  ⟨.inr ⟨hout, h⟩, fun hentered => absurd hentered hout⟩

/-- There is one room with each number: if it has a free cell, no room with the number is full. -/
theorem Agree.not_roomFull {rooms : RoomArray} {table : UserTable} (h : Agree rooms table) {i : ℕ}
    {room : Room} (cell : rooms.rooms[i]? = some room) (free : room.numUsers < maxUsersPerRoom) :
    ¬ RoomFull rooms room.id.toNat := by
  rintro ⟨r, hr, hid, hfull⟩
  obtain ⟨j, hj⟩ := List.getElem?_of_mem hr
  have hij : j = i := by
    have hidj := h.id hj
    have hidi := h.id cell
    omega
  rw [hij, cell, Option.some.injEq] at hj
  rw [hj, hfull] at free
  exact absurd free (lt_irrefl _)

/-- The server's answer to the byte of a number is what `/join N` is to do exactly when the number is
harmless.  One case for each outcome of `handle_join_message`. -/
theorem JoinOutcome.joinsByNumber_iff {rooms : RoomArray} {table : UserTable} (h : Agree rooms table)
    {user user' : User} {fmt : Bytes} {n : ℤ}
    (hout : JoinOutcome rooms user (storedByte n) user' fmt) :
    JoinsByNumber rooms user user' n ↔ HarmlessNumber rooms user n := by
  have hbyte := toNat_storedByte n
  cases hout with
  | missing absent =>
    have hno : ¬ RoomNumber (toLong n % 256) := by
      intro hyes
      obtain ⟨h0, h5⟩ := (storedByte_inside_iff n).2 hyes
      exact absent.elim h0 (not_lt.2 h5)
    refine iff_of_true (joinsByNumber_of_not_entered (not_entered (.inr rfl)) (.inl ?_)) (.inr (.inl hno))
    intro hn
    rw [hn.byte_eq] at hno
    exact hno hn
  | already exists_ inside =>
    have hroom : (user.room.toNat : ℤ) = toLong n % 256 := by rw [inside, hbyte]
    have hout : ¬ Entered user user := not_entered (.inr rfl)
    refine iff_of_true ?_ (.inr (.inr (.inl hroom)))
    by_cases hn : RoomNumber n
    · exact ⟨.inl (hroom.trans hn.byte_eq), fun hentered => absurd hentered hout⟩
    · exact joinsByNumber_of_not_entered hout (.inl hn)
  | full exists_ outside cell id full =>
    have hfull : RoomFull rooms (toLong n % 256) := ⟨_, List.mem_of_getElem? cell, by rw [id, hbyte], full⟩
    refine iff_of_true (joinsByNumber_of_not_entered (not_entered (.inl rfl)) ?_)
      (.inr (.inr (.inr hfull)))
    by_cases hn : RoomNumber n
    · rw [hn.byte_eq] at hfull
      exact .inr hfull
    · exact .inl hn
  | joined exists_ outside cell id free =>
    have hentered : Entered user { user with room := storedByte n } :=
      ⟨exists_.1, fun he => outside he.symm⟩
    constructor
    · intro hjoins
      have hroom : ((storedByte n).toNat : ℤ) = n := hjoins.2 hentered
      have hinside : RoomNumber (toLong n % 256) := (storedByte_inside_iff n).1 exists_
      rw [← hbyte, hroom] at hinside
      exact .inl hinside
    · intro hharmless
      rcases hharmless with hn | hno | hroom | hfull
      · have hroom : ((storedByte n).toNat : ℤ) = n := by rw [hbyte, hn.byte_eq]
        exact ⟨.inl hroom, fun _ => hroom⟩
      · exact absurd ((storedByte_inside_iff n).1 exists_) hno
      · rw [← hbyte] at hroom
        exact absurd (UInt8.toNat_inj.1 (by exact_mod_cast hroom)) outside
      · rw [← hbyte, ← id] at hfull
        exact absurd hfull (h.not_roomFull cell free)

theorem typeJoin_eq {cenv : ClientEnv} (hheap : ∀ n, 0 < n → cenv.heap.serves n = true)
    (hsend : ∀ call, (cenv.send call).Accepted) (env : Env) {s : Server}
    (h : Agree s.rooms s.userTable) {user : User} (hu : user ∈ s.userTable.users) (n : ℤ)
    (newline : Bool) :
    ∃ s' outs status user' fmt, typeJoin cenv env user.id n newline s = .ok (some (s', outs, status)) ∧
      user' ∈ s'.userTable.users ∧ user'.id = user.id ∧
      JoinOutcome s.rooms user (storedByte n) user' fmt := by
  have hfind : userTableFind s.userTable user.id = some user := userTableFind_eq_some.2 ⟨hu, rfl⟩
  have hbyte : ((Content.join (storedByte n)).frame cenv.host)[5]? = some (storedByte n) := rfl
  have htype : getMessageType ((Content.join (storedByte n)).frame cenv.host) = .ok .join :=
    getMessageType_frame _ _
  obtain ⟨rooms', user', outs, fmt, hjoin, -, hout, -⟩ := handleJoinMessage_spec env h hu hbyte
  refine ⟨{ s with rooms := rooms', userTable := s.userTable.set user' }, outs, 1, user', fmt, ?_, ?_,
    hout.keeps.1, hout⟩
  · rw [typeJoin, executeCommand_join hheap hsend, Checked.ok_bind]
    simp only [handleClientMessage, hfind, htype, Checked.ok_bind, hjoin, Checked.pure_eq_ok]
  · refine UserTable.mem_set.2 (.inl ⟨rfl, ?_⟩)
    rw [hout.keeps.1]
    exact UserTable.mem_ids hu

/-- In every reachable state, for every connected user and every number, `/join N` does what it is to
do exactly when the number is harmless. -/
theorem typeJoin_iff {cenv : ClientEnv} (hheap : ∀ n, 0 < n → cenv.heap.serves n = true)
    (hsend : ∀ call, (cenv.send call).Accepted) (env : Env) {s₀ s : Server}
    {trace : List (Turn Server (Env × Event) (List Output))} (h₀ : Initial pollfdArrayAppend s₀)
    (run : Run (Step pollfdArrayAppend) s₀ trace s) {user : User} (hu : user ∈ s.userTable.users)
    (n : ℤ) (newline : Bool) :
    ∃ s' outs status user', typeJoin cenv env user.id n newline s = .ok (some (s', outs, status)) ∧
      user' ∈ s'.userTable.users ∧ user'.id = user.id ∧
      (JoinsByNumber s.rooms user user' n ↔ HarmlessNumber s.rooms user n) := by
  have h := run.agree h₀
  obtain ⟨s', outs, status, user', fmt, htype, hmem, hid, hout⟩ :=
    typeJoin_eq hheap hsend env h hu n newline
  exact ⟨s', outs, status, user', htype, hmem, hid, hout.joinsByNumber_iff h⟩

/-- A user that has just connected types `/join 2`. -/
theorem typeJoin_iff_two : ∃ s trace, Run (Step pollfdArrayAppend) (.start 3) trace s ∧
    ∃ user ∈ s.userTable.users, user.id = 4 ∧ ∃ s' outs status user',
      typeJoin .steady (.steady 0) user.id 2 true s = .ok (some (s', outs, status)) ∧
      user' ∈ s'.userTable.users ∧ user'.id = user.id ∧
      (JoinsByNumber s.rooms user user' 2 ↔ HarmlessNumber s.rooms user 2) := by
  have run : Run (Step pollfdArrayAppend) (.start 3) _ _ :=
    Run.start.turn (.connect (.steady 0) 4 (by decide) rfl)
  refine ⟨_, _, run, _, List.mem_cons_self, rfl, ?_⟩
  exact typeJoin_iff (fun _ hn => decide_eq_true hn) ClientEnv.steady_accepts (.steady 0) (Server.start_initial 3) run
    List.mem_cons_self 2 true

/-- A user that has just connected types `/join 257` and is in room 1. -/
theorem typeJoin_257 : ∃ s trace, Run (Step pollfdArrayAppend) (.start 3) trace s ∧
    ∃ user ∈ s.userTable.users, ∃ s' outs status user',
      typeJoin .steady (.steady 0) user.id 257 true s = .ok (some (s', outs, status)) ∧
      user' ∈ s'.userTable.users ∧ user'.id = user.id ∧ user'.room = 1 ∧
      ¬ JoinsByNumber s.rooms user user' 257 := by
  have run : Run (Step pollfdArrayAppend) (.start 3) _ _ :=
    Run.start.turn (.connect (.steady 0) 4 (by decide) rfl)
  refine ⟨_, _, run, _, List.mem_cons_self, _, _, _, _, rfl, List.mem_cons_self, rfl, rfl, ?_⟩
  rintro ⟨-, hnumber⟩
  have : (1 : ℤ) = 257 := hnumber ⟨by decide, by decide⟩
  omega

end ChatRooms
