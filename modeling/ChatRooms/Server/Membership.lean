import ChatRooms.Server.Handlers

/-!
# Room membership

Who is in which room is stored twice: in the record of the user and in the array of the room.
`Agree` says that the two copies are the same, for every room up to the order of its array, and each
operation on rooms and users keeps it: `Agree.leave` and `Agree.enter`, `Agree.add` and
`Agree.delete`, and `Agree.set` for a change that does not concern rooms.

The handlers change a record of the table through a pointer.  The lemmas are about the table with
that record replaced, `table.set user`.
-/

namespace ChatRooms

/-! ## The table around one record -/

theorem UserTable.ext_users {t t' : UserTable} (h : t.users = t'.users) : t = t' := by
  cases t
  cases t'
  cases h
  rfl

theorem UserTable.set_self {t : UserTable} {u : User} (hu : u ∈ t.users) : t.set u = t := by
  apply UserTable.ext_users
  change t.users.map (fun v => if v.id = u.id then u else v) = t.users
  rw [List.map_congr_left (g := id), List.map_id]
  intro v hv
  by_cases h : v.id = u.id
  · rw [if_pos h, List.inj_on_of_nodup_map t.nodup hv hu h]
    rfl
  · rw [if_neg h]
    rfl

theorem UserTable.mem_ids {t : UserTable} {u : User} (hu : u ∈ t.users) : u.id ∈ t.ids :=
  List.mem_map_of_mem hu

theorem UserTable.mem_ids_iff_of_users {t t' : UserTable} {id : Fd}
    (h : ∀ v, v ∈ t'.users ↔ v ∈ t.users ∧ v.id ≠ id) (fd : Fd) :
    fd ∈ t'.ids ↔ fd ∈ t.ids ∧ fd ≠ id := by
  unfold UserTable.ids
  simp only [List.mem_map, h]
  constructor
  · rintro ⟨v, ⟨hv, hne⟩, rfl⟩
    exact ⟨⟨v, hv, rfl⟩, hne⟩
  · rintro ⟨⟨v, hv, rfl⟩, hne⟩
    exact ⟨v, ⟨hv, hne⟩, rfl⟩

theorem UserTable.set_set (t : UserTable) (u v : User) (h : v.id = u.id) : (t.set u).set v = t.set v := by
  apply UserTable.ext_users
  change (t.users.map fun w => if w.id = u.id then u else w).map
    (fun w => if w.id = v.id then v else w) = t.users.map fun w => if w.id = v.id then v else w
  rw [List.map_map]
  apply List.map_congr_left
  intro w _
  by_cases hw : w.id = u.id
  · simp [hw, h]
  · simp [hw, h]

theorem UserTable.mem_set {t : UserTable} {u v : User} :
    v ∈ (t.set u).users ↔ v = u ∧ u.id ∈ t.ids ∨ v ∈ t.users ∧ v.id ≠ u.id := by
  change v ∈ t.users.map (fun w => if w.id = u.id then u else w) ↔ _
  rw [List.mem_map]
  constructor
  · rintro ⟨w, hw, hv⟩
    by_cases h : w.id = u.id
    · rw [if_pos h] at hv
      exact .inl ⟨hv.symm, h ▸ List.mem_map_of_mem hw⟩
    · rw [if_neg h] at hv
      subst hv
      exact .inr ⟨hw, h⟩
  · rintro (⟨rfl, hid⟩ | ⟨hv, hne⟩)
    · obtain ⟨w, hw, hid⟩ := List.mem_map.1 hid
      exact ⟨w, hw, if_pos hid⟩
    · exact ⟨v, hv, if_neg hne⟩

/-- The new record of a connected user is in the table. -/
theorem UserTable.mem_set_self {t : UserTable} {u v : User} (hu : u ∈ t.users) (hid : v.id = u.id) :
    v ∈ (t.set v).users := by
  apply UserTable.mem_set.2
  rw [hid]
  exact .inl ⟨rfl, UserTable.mem_ids hu⟩

theorem UserTable.ids_set (t : UserTable) (u : User) : (t.set u).ids = t.ids := by
  change (t.users.map fun w => if w.id = u.id then u else w).map User.id = t.users.map User.id
  rw [List.map_map]
  apply List.map_congr_left
  intro w _
  by_cases hw : w.id = u.id
  · simp [hw]
  · simp [hw]

/-- Whatever record a connected user has, the other users of a room stay the same. -/
theorem UserTable.inRoom_set {t : UserTable} {u : User} (hu : u ∈ t.users) :
    ∃ rest : UInt8 → List Fd,
      (∀ n, (t.inRoom n).Perm (if u.room = n then u.id :: rest n else rest n)) ∧
      (∀ v : User, v.id = u.id → ∀ n,
        ((t.set v).inRoom n).Perm (if v.room = n then u.id :: rest n else rest n)) ∧
      ∃ t', userTableDelete t u.id = some t' ∧ (∀ n, (t'.inRoom n).Perm (rest n)) ∧
        ∀ v, v ∈ t'.users ↔ v ∈ t.users ∧ v.id ≠ u.id := by
  obtain ⟨rest, -, -, hset, t', hdel, hrest⟩ := UserTable.exists_rest hu
  have hroom (v : User) (hid : v.id = u.id) (n : UInt8) : ((t.set v).inRoom n).Perm
      (if v.room = n then u.id :: (rest.filter (·.room = n)).map User.id
        else (rest.filter (·.room = n)).map User.id) := by
    have := ((hset v hid).filter (·.room = n)).map User.id
    rw [filter_room_cons, hid] at this
    exact this
  refine ⟨fun n => (rest.filter fun v : User => v.room = n).map User.id, fun n => ?_, hroom, t', hdel,
    fun n => (hrest.filter _).map _, fun v => ?_⟩
  · have := hroom u rfl n
    rwa [UserTable.set_self hu] at this
  · have hfind : userTableFind t u.id = some u := userTableFind_eq_some.2 ⟨hu, rfl⟩
    unfold userTableDelete at hdel
    rw [hfind, Option.some.injEq] at hdel
    subst hdel
    simp

theorem UserTable.nodup_inRoom (t : UserTable) (n : UInt8) : (t.inRoom n).Nodup :=
  t.nodup.sublist (List.filter_sublist.map _)

theorem UserTable.mem_inRoom {t : UserTable} {n : UInt8} {id : Fd} :
    id ∈ t.inRoom n ↔ ∃ u ∈ t.users, u.id = id ∧ u.room = n := by
  unfold UserTable.inRoom
  simp only [List.mem_map, List.mem_filter, decide_eq_true_eq]
  exact ⟨fun ⟨u, ⟨hu, hr⟩, hid⟩ => ⟨u, hu, hid, hr⟩, fun ⟨u, hu, hid, hr⟩ => ⟨u, ⟨hu, hr⟩, hid⟩⟩

/-! ## Agreement -/

/-- The room array and the user table agree: the rooms are numbered, none is over its capacity, and
each holds exactly the users whose record names it. -/
structure Agree (rooms : RoomArray) (table : UserTable) : Prop where
  len : rooms.len = numRooms
  length : rooms.rooms.length = numRooms
  id : ∀ {i : ℕ} {room : Room}, rooms.rooms[i]? = some room → room.id.toNat = i + 1
  numUsers_le : ∀ {i : ℕ} {room : Room}, rooms.rooms[i]? = some room → room.numUsers ≤ maxUsersPerRoom
  members : ∀ {i : ℕ} {room : Room}, rooms.rooms[i]? = some room → room.members.Perm (table.inRoom room.id)
  room_le : ∀ user ∈ table.users, user.room.toNat ≤ numRooms

namespace Agree

variable {rooms : RoomArray} {table : UserTable}

/-- The lookup of an existing room finds it. -/
theorem getRoom (h : Agree rooms table) {n : UInt8} (h0 : n ≠ 0) (hn : n.toNat ≤ numRooms) :
    ∃ i room, roomArrayGetRoom rooms n.toNat = some i ∧ rooms.rooms[i]? = some room ∧
      rooms.read i = .ok room ∧ room.id = n := by
  have hpos : n.toNat ≠ 0 := fun he => h0 (UInt8.toNat_inj.1 he)
  have hn5 : n.toNat ≤ 5 := hn
  have hlen : rooms.rooms.length = 5 := h.length
  have hi : n.toNat - 1 < rooms.rooms.length := by omega
  have hget := List.getElem?_eq_getElem hi
  have hid := h.id hget
  refine ⟨n.toNat - 1, rooms.rooms[n.toNat - 1], ?_, hget, RoomArray.read_eq_ok.2 hget,
    UInt8.toNat_inj.1 (by omega)⟩
  have hl : rooms.len = 5 := h.len
  rw [roomArrayGetRoom, if_neg (by omega)]
  congr 1
  omega

theorem getRoom_eq_none (h : Agree rooms table) {n : UInt8} :
    roomArrayGetRoom rooms n.toNat = none ↔ n = 0 ∨ numRooms < n.toNat := by
  have hl : rooms.len = 5 := h.len
  have h0 : n = 0 ↔ n.toNat = 0 := by
    rw [← UInt8.toNat_inj]
    rfl
  rw [h0]
  unfold roomArrayGetRoom
  split
  · simp only [true_iff]
    show n.toNat = 0 ∨ 5 < n.toNat
    omega
  · simp only [reduceCtorEq, false_iff]
    show ¬ (n.toNat = 0 ∨ 5 < n.toNat)
    omega

/-- Replacing a room by one with the same id keeps the agreement, with whatever table the new
members agree, as long as no other room's users change. -/
theorem write (h : Agree rooms table) {i : ℕ} {room room' : Room} {table' : UserTable}
    (hroom : rooms.rooms[i]? = some room) (hid : room'.id = room.id)
    (hnum : room'.numUsers ≤ maxUsersPerRoom) (hmem : room'.members.Perm (table'.inRoom room.id))
    (hother : ∀ n, n ≠ room.id → n ≠ 0 → (table.inRoom n).Perm (table'.inRoom n))
    (hle : ∀ user ∈ table'.users, user.room.toNat ≤ numRooms) :
    Agree (rooms.write i room') table' := by
  have hcell : ∀ {j : ℕ} {r : Room}, (rooms.rooms.set i room')[j]? = some r →
      j = i ∧ r = room' ∨ j ≠ i ∧ rooms.rooms[j]? = some r := by
    intro j r hr
    by_cases hj : i = j
    · subst hj
      rw [List.getElem?_set_self (List.getElem?_eq_some_iff.1 hroom).1, Option.some.injEq] at hr
      exact .inl ⟨rfl, hr.symm⟩
    · rw [List.getElem?_set_ne hj] at hr
      exact .inr ⟨Ne.symm hj, hr⟩
  refine ⟨h.len, (List.length_set ..).trans h.length, ?_, ?_, ?_, hle⟩
  · intro j r hr
    rcases hcell hr with ⟨rfl, rfl⟩ | ⟨-, hr⟩
    · rw [hid, h.id hroom]
    · exact h.id hr
  · intro j r hr
    rcases hcell hr with ⟨rfl, rfl⟩ | ⟨-, hr⟩
    · exact hnum
    · exact h.numUsers_le hr
  · intro j r hr
    rcases hcell hr with ⟨rfl, rfl⟩ | ⟨hj, hr⟩
    · rw [hid]
      exact hmem
    · have hrid := h.id hr
      have hroomid := h.id hroom
      refine (h.members hr).trans (hother _ (fun he => hj ?_) (fun he => ?_))
      · rw [he] at hrid
        omega
      · rw [he] at hrid
        exact absurd hrid (by simp)

/-- A user in a room is found in it and removed, and everyone else stays. -/
theorem leave (h : Agree rooms table) {u : User} (hu : u ∈ table.users) (hroom : u.room ≠ 0) :
    ∃ i room room', roomArrayGetRoom rooms u.room.toNat = some i ∧ rooms.rooms[i]? = some room ∧
      room.id = u.room ∧
      rooms.removeUser i u = .ok (some (rooms.write i room', { u with room := invalidRoom })) ∧
      room'.id = room.id ∧ (u.id :: room'.members).Perm room.members ∧
      Agree (rooms.write i room') (table.set { u with room := invalidRoom }) := by
  obtain ⟨i, room, hget, hi, hread, hid⟩ := h.getRoom hroom (h.room_le u hu)
  have hperm := h.members hi
  have hmem : u.id ∈ room.members := hperm.mem_iff.2 (UserTable.mem_inRoom.2 ⟨u, hu, rfl, hid.symm⟩)
  obtain ⟨room', hremove, hid', hnum', hmem'⟩ := roomRemoveUser_eq (h.numUsers_le hi) hid hmem
  have hidx : room.members.idxOf u.id < room.members.length := List.idxOf_lt_length_of_mem hmem
  have hcons : (u.id :: room'.members).Perm room.members := by
    have := cons_swapRemove_perm hidx
    rwa [← hmem', List.getElem_idxOf] at this
  refine ⟨i, room, room', hget, hi, hid, ?_, hid', hcons, ?_⟩
  · rw [RoomArray.removeUser, hread, Checked.ok_bind, hremove]
    rfl
  obtain ⟨rest, hself, hset, -⟩ := UserTable.inRoom_set hu
  have hleft : ∀ n, n ≠ 0 →
      ((table.set { u with room := invalidRoom }).inRoom n).Perm (rest n) := by
    intro n hn
    have := hset { u with room := invalidRoom } rfl n
    rwa [if_neg (show (0 : UInt8) ≠ n from hn.symm)] at this
  have hne0 : room.id ≠ 0 := by
    rw [hid]
    exact hroom
  refine h.write hi hid' ?_ ?_ ?_ ?_
  · rw [hnum']
    exact le_trans (Nat.sub_le _ _) (h.numUsers_le hi)
  · -- The array lost the user, and so did the table.
    have htable := hself room.id
    rw [if_pos hid.symm] at htable
    exact ((List.perm_cons u.id).1 (hcons.trans (hperm.trans htable))).trans (hleft _ hne0).symm
  · intro n hn h0
    have htable := hself n
    rw [if_neg (by rw [← hid]; exact hn.symm)] at htable
    exact htable.trans (hleft n h0).symm
  · intro v hv
    rcases UserTable.mem_set.1 hv with ⟨rfl, -⟩ | ⟨hv, -⟩
    · exact Nat.zero_le _
    · exact h.room_le v hv

/-- A user in no room is added to a room that has a free cell. -/
theorem enter (h : Agree rooms table) {u : User} (hu : u ∈ table.users) (hroom : u.room = 0) {i : ℕ}
    {room : Room} (hi : rooms.rooms[i]? = some room) (hfree : room.numUsers < maxUsersPerRoom) :
    ∃ room', rooms.addUser i u = .ok (some (rooms.write i room', { u with room := room.id })) ∧
      room'.id = room.id ∧ room'.members = room.members ++ [u.id] ∧
      Agree (rooms.write i room') (table.set { u with room := room.id }) := by
  obtain ⟨room', hadd, hid', hnum', hmem'⟩ := roomAddUser_eq hfree u
  refine ⟨room', ?_, hid', hmem', ?_⟩
  · rw [RoomArray.addUser, RoomArray.read_eq_ok.2 hi, Checked.ok_bind, hadd]
    rfl
  obtain ⟨rest, hall, hset, -⟩ := UserTable.inRoom_set hu
  have hid := h.id hi
  have hne0 : room.id ≠ 0 := by
    intro he
    rw [he] at hid
    exact absurd hid (by simp)
  have hself : ∀ n, n ≠ 0 → (table.inRoom n).Perm (rest n) := by
    intro n hn
    have := hall n
    rwa [if_neg (by rw [hroom]; exact hn.symm)] at this
  have hentered := hset { u with room := room.id } rfl
  refine h.write hi hid' ?_ ?_ ?_ ?_
  · rw [hnum']
    exact hfree
  · rw [hmem']
    have := hentered room.id
    rw [if_pos rfl] at this
    exact (List.perm_append_singleton _ _).trans
      ((((h.members hi).trans (hself _ hne0)).cons u.id).trans this.symm)
  · intro n hn h0
    have := hentered n
    rw [if_neg (show room.id ≠ n from hn.symm)] at this
    exact (hself n h0).trans this.symm
  · intro v hv
    rcases UserTable.mem_set.1 hv with ⟨rfl, -⟩ | ⟨hv, -⟩
    · have hlt := (List.getElem?_eq_some_iff.1 hi).1
      have hlen := h.length
      show room.id.toNat ≤ numRooms
      omega
    · exact h.room_le v hv

/-- A change of a record that leaves its room as it is. -/
theorem set (h : Agree rooms table) {u v : User} (hu : u ∈ table.users) (hid : v.id = u.id)
    (hroom : v.room = u.room) : Agree rooms (table.set v) := by
  obtain ⟨rest, hself, hset, -⟩ := UserTable.inRoom_set hu
  have hsame : ∀ n, (table.inRoom n).Perm ((table.set v).inRoom n) := by
    intro n
    have hv := hset v hid n
    rw [hroom] at hv
    exact (hself n).trans hv.symm
  refine ⟨h.len, h.length, h.id, h.numUsers_le, fun hi => (h.members hi).trans (hsame _), ?_⟩
  intro w hw
  rcases UserTable.mem_set.1 hw with ⟨rfl, -⟩ | ⟨hw, -⟩
  · rw [hroom]
    exact h.room_le u hu
  · exact h.room_le w hw

/-- The deletion of a user that is in no room. -/
theorem delete (h : Agree rooms table) {u : User} (hu : u ∈ table.users) (hroom : u.room = 0) :
    ∃ table', userTableDelete table u.id = some table' ∧ Agree rooms table' ∧
      ∀ v, v ∈ table'.users ↔ v ∈ table.users ∧ v.id ≠ u.id := by
  obtain ⟨rest, hself, -, table', hdel, hrest, hmem⟩ := UserTable.inRoom_set hu
  refine ⟨table', hdel, ⟨h.len, h.length, h.id, h.numUsers_le, ?_, ?_⟩, hmem⟩
  · intro i room hi
    have hid := h.id hi
    have hne0 : (0 : UInt8) ≠ room.id := by
      intro he
      rw [← he] at hid
      exact absurd hid (by simp)
    have := hself room.id
    rw [hroom, if_neg hne0] at this
    exact (h.members hi).trans (this.trans (hrest _).symm)
  · intro v hv
    exact h.room_le v ((hmem v).1 hv).1

/-- A new user is in no room. -/
theorem add (h : Agree rooms table) {heap : Heap} {fd : Fd} {table' : UserTable}
    (hadd : userTableAdd heap table fd = .ok (some table')) : Agree rooms table' := by
  obtain ⟨-, name, -, -, husers⟩ := userTableAdd_eq_some hadd
  refine ⟨h.len, h.length, h.id, h.numUsers_le, ?_, ?_⟩
  · intro i room hi
    have hid := h.id hi
    have hne0 : (0 : UInt8) ≠ room.id := by
      intro he
      rw [← he] at hid
      exact absurd hid (by simp)
    have hsame : table'.users.filter (·.room = room.id) = table.users.filter (·.room = room.id) := by
      rw [husers, List.filter_append, List.filter_cons_of_neg (by simpa using hne0), List.filter_nil,
        List.append_nil]
    unfold UserTable.inRoom
    rw [hsame]
    exact h.members hi
  · intro v hv
    rw [husers] at hv
    rcases List.mem_append.1 hv with hv | hv
    · exact h.room_le v hv
    · obtain rfl := List.mem_singleton.1 hv
      exact Nat.zero_le _

end Agree

end ChatRooms
