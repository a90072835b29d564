import ChatRooms.Messages.Basic
import ChatRooms.Lib.SwapRemove

/-!
# Rooms and users

The data of `types/room.c`, `types/user.h`, `data_structures/room_array.c` and
`data_structures/user_table.c`.  A room keeps the ids of its users in the first `numUsers` cells of
an array; a user record keeps the id of its room.  `uthash` is a finite map keyed by id: `UserTable`
is a list of records with distinct ids.

`roomAddUser_eq` and `roomRemoveUser_eq` say what the two room operations do to the used cells,
`UserTable.exists_rest` what replacing and deleting a record does to the table.
-/

namespace ChatRooms

/-- A file descriptor, an `int`. -/
abbrev Fd := ℤ

/-- `MAX_USERS_PER_ROOM` -/
abbrev maxUsersPerRoom : ℕ := 25

/-- `INVALID_ROOM` -/
abbrev invalidRoom : UInt8 := 0

/-- `struct room`; `num_users` is a `uint8_t`. -/
structure Room where
  id : UInt8
  users : CArray Fd maxUsersPerRoom
  numUsers : ℕ

/-- `struct user`, without its hash handle. -/
structure User where
  id : Fd
  room : UInt8
  name : CArray UInt8 nameSizeLimit

/-- The ids in the used cells of a room. -/
def Room.members (room : Room) : List Fd := room.users.toList.take room.numUsers

/-! ## Room operations -/

/-- Adds a user to a room; `none` is -1, the room is full. -/
def roomAddUser (room : Room) (user : User) : Checked (Option (Room × User)) :=
  if room.numUsers = maxUsersPerRoom then return none
  else do
    let users ← room.users.write room.numUsers user.id
    return some ({ room with users, numUsers := (room.numUsers + 1) % 2 ^ 8 },
      { user with room := room.id })

/-- The search loop of `room_remove_user` from index `i` on, with `fuel` cells to go: the index at
which it stops. -/
def roomSearch (room : Room) (id : Fd) : ℕ → ℕ → Checked ℕ
  | 0, i => return i
  | fuel + 1, i => do
    if (← room.users.read i) = id then return i
    else roomSearch room id fuel (i + 1)

/-- The last used cell, at index `num_users - 1`; in an empty room that is -1. -/
def roomLast (room : Room) : Checked Fd :=
  match room.numUsers with
  | 0 => .error (.read 0 0)
  | n + 1 => room.users.read n

/-- Removes a user from a room; `none` is -1, the user is not in the room. -/
def roomRemoveUser (room : Room) (user : User) : Checked (Option (Room × User)) :=
  if room.id ≠ user.room then return none
  else do
    let i ← roomSearch room user.id room.numUsers 0
    let users ← room.users.write i (← roomLast room)
    return some ({ room with users, numUsers := (room.numUsers + 2 ^ 8 - 1) % 2 ^ 8 },
      { user with room := invalidRoom })

theorem length_members {room : Room} (h : room.numUsers ≤ maxUsersPerRoom) :
    room.members.length = room.numUsers := by
  rw [Room.members, List.length_take, List.Vector.toList_length]
  omega

theorem roomAddUser_eq_none {room : Room} (h : room.numUsers = maxUsersPerRoom) (user : User) :
    roomAddUser room user = .ok none := if_pos h

theorem roomAddUser_of_lt {room : Room} (h : room.numUsers < maxUsersPerRoom) (user : User) :
    roomAddUser room user = .ok (some ({ room with
      users := room.users.set ⟨room.numUsers, h⟩ user.id
      numUsers := (room.numUsers + 1) % 2 ^ 8 }, { user with room := room.id })) := by
  rw [roomAddUser, if_neg (Nat.ne_of_lt h), CArray.write_of_lt _ h]
  rfl

/-- A user that is added takes the first free cell. -/
theorem roomAddUser_eq {room : Room} (h : room.numUsers < maxUsersPerRoom) (user : User) :
    ∃ room', roomAddUser room user = .ok (some (room', { user with room := room.id })) ∧
      room'.id = room.id ∧ room'.numUsers = room.numUsers + 1 ∧
      room'.members = room.members ++ [user.id] := by
  have hlt : room.numUsers < 25 := h
  refine ⟨_, roomAddUser_of_lt h user, rfl, Nat.mod_eq_of_lt (by omega), ?_⟩
  have hlen : room.numUsers < room.users.toList.length := by
    rw [List.Vector.toList_length]
    exact h
  rw [Room.members, Nat.mod_eq_of_lt (by omega), List.Vector.toList_set, List.take_add_one,
    List.take_set_of_le (Nat.le_refl _), List.getElem?_set_self hlen]
  rfl

/-- The search stops at the first used cell that holds the id. -/
theorem roomSearch_eq {room : Room} {id : Fd} (hn : room.numUsers ≤ maxUsersPerRoom) {fuel i : ℕ}
    (hfuel : i + fuel = room.numUsers) :
    roomSearch room id fuel i = .ok (i + (room.members.drop i).idxOf id) := by
  induction fuel generalizing i with
  | zero =>
    rw [roomSearch, List.drop_eq_nil_of_le (by rw [length_members hn]; omega)]
    rfl
  | succ fuel ih =>
    have hi : i < room.users.toList.length := by
      rw [List.Vector.toList_length]
      omega
    have him : i < room.members.length := by
      rw [length_members hn]
      omega
    have hcell : room.users.toList[i] = room.members[i] := by
      simp only [Room.members, List.getElem_take]
    rw [roomSearch, CArray.read_of_lt _ hi, hcell, Checked.ok_bind, List.drop_eq_getElem_cons him,
      List.idxOf_cons]
    by_cases hid : room.members[i] = id
    · rw [if_pos hid, hid, cond_eq_ite, if_pos (beq_self_eq_true id)]
      rfl
    · rw [if_neg hid, ih (by omega), cond_eq_ite, if_neg (by simpa using hid), Nat.add_assoc,
        Nat.add_comm 1]

/-- A user that is removed leaves its cell to the last one. -/
theorem roomRemoveUser_eq {room : Room} {user : User} (hn : room.numUsers ≤ maxUsersPerRoom)
    (hroom : room.id = user.room) (hmem : user.id ∈ room.members) :
    ∃ room', roomRemoveUser room user = .ok (some (room', { user with room := invalidRoom })) ∧
      room'.id = room.id ∧ room'.numUsers = room.numUsers - 1 ∧
      room'.members = swapRemove room.members (room.members.idxOf user.id) := by
  have hidx : room.members.idxOf user.id < room.numUsers := by
    rw [← length_members hn]
    exact List.idxOf_lt_length_of_mem hmem
  have hn25 : room.numUsers ≤ 25 := hn
  have hused : room.numUsers - 1 < room.users.toList.length := by
    rw [List.Vector.toList_length]
    omega
  have hlast : roomLast room = .ok room.users.toList[room.numUsers - 1] := by
    have hread := CArray.read_of_lt _ hused
    obtain ⟨n, hnum⟩ := Nat.exists_eq_succ_of_ne_zero (by omega : room.numUsers ≠ 0)
    simp only [hnum] at hread
    simp only [roomLast, hnum]
    exact hread
  have hsearch : roomSearch room user.id room.numUsers 0 = .ok (room.members.idxOf user.id) := by
    rw [roomSearch_eq hn (by omega), List.drop_zero, Nat.zero_add]
  have hcell : room.members.idxOf user.id < maxUsersPerRoom := by omega
  have hnum : (room.numUsers + 2 ^ 8 - 1) % 2 ^ 8 = room.numUsers - 1 := by omega
  refine ⟨{ room with
      users := room.users.set ⟨room.members.idxOf user.id, hcell⟩
        room.users.toList[room.numUsers - 1]
      numUsers := (room.numUsers + 2 ^ 8 - 1) % 2 ^ 8 }, ?_, rfl, hnum, ?_⟩
  · rw [roomRemoveUser, if_neg (by simpa using hroom), hsearch, Checked.ok_bind, hlast,
      Checked.ok_bind, CArray.write_of_lt _ hcell]
    rfl
  · rw [Room.members, hnum, List.Vector.toList_set]
    exact take_set_last hused hidx

/-! ## The room array -/

/-- `struct room_array`; `len` is a `uint8_t`. -/
structure RoomArray where
  rooms : List Room
  len : ℕ

/-- `sizeof(struct room_array)` -/
def sizeofRoomArray : ℕ := 16

/-- `sizeof(struct room)` -/
def sizeofRoom : ℕ := 108

/-- An array of `n` empty rooms, numbered from 1; `none` when an allocation fails. -/
def roomArrayInit (heap : Heap) (n : ℕ) : Option RoomArray :=
  if heap.serves sizeofRoomArray && heap.serves (n * sizeofRoom) then
    some {
      rooms := (List.range n).map fun i =>
        { id := if i < n % 2 ^ 8 then UInt8.ofNat (i + 1) else 0, users := .fill fun _ => 0, numUsers := 0 }
      len := n % 2 ^ 8 }
  else none

/-- The room with the given id, as the index of its cell; `none` is `NULL`. -/
def roomArrayGetRoom (a : RoomArray) (id : ℤ) : Option ℕ :=
  if id < 1 ∨ id > a.len then none else some (id - 1).toNat

/-- Reads the room behind a pointer returned by `roomArrayGetRoom`. -/
def RoomArray.read (a : RoomArray) (i : ℕ) : Checked Room :=
  match a.rooms[i]? with
  | some room => .ok room
  | none => .error (.read i a.rooms.length)

theorem RoomArray.read_eq_ok {a : RoomArray} {i : ℕ} {room : Room} :
    a.read i = .ok room ↔ a.rooms[i]? = some room := by
  unfold RoomArray.read
  split
  · rename_i found hcell
    rw [hcell, Except.ok.injEq, Option.some.injEq]
  · rename_i hnone
    simp [hnone]

/-- Overwrites the room behind a pointer. -/
def RoomArray.write (a : RoomArray) (i : ℕ) (room : Room) : RoomArray :=
  { a with rooms := a.rooms.set i room }

/-! ## The user table -/

/-- The hash table of users: records with distinct ids. -/
structure UserTable where
  users : List User
  nodup : (users.map User.id).Nodup

namespace UserTable

def empty : UserTable := ⟨[], List.nodup_nil⟩

/-- The ids of the connected users. -/
def ids (t : UserTable) : List Fd := t.users.map User.id

/-- The ids of the users whose record names room `n`. -/
def inRoom (t : UserTable) (n : UInt8) : List Fd := (t.users.filter (·.room = n)).map User.id

/-- Overwrites the record with the id of `u` by `u`. -/
def set (t : UserTable) (u : User) : UserTable where
  users := t.users.map fun v => if v.id = u.id then u else v
  nodup := by
    have : (fun v : User => User.id (if v.id = u.id then u else v)) = User.id := by
      funext v
      split
      · rename_i h
        exact h.symm
      · rfl
    rw [List.map_map]
    change (t.users.map fun v => User.id (if v.id = u.id then u else v)).Nodup
    rw [this]
    exact t.nodup

end UserTable

/-- The record with the given id; `none` is `NULL`. -/
def userTableFind (t : UserTable) (id : Fd) : Option User := t.users.find? (·.id = id)

theorem userTableFind_eq_none {t : UserTable} {id : Fd} : userTableFind t id = none ↔ id ∉ t.ids := by
  simp [userTableFind, UserTable.ids]

theorem userTableFind_eq_some {t : UserTable} {id : Fd} {u : User} :
    userTableFind t id = some u ↔ u ∈ t.users ∧ u.id = id := by
  constructor
  · intro h
    exact ⟨List.mem_of_find?_eq_some h, by simpa using List.find?_some h⟩
  · rintro ⟨hu, rfl⟩
    cases h : userTableFind t u.id with
    | none => exact absurd (List.mem_map_of_mem hu) (userTableFind_eq_none.1 h)
    | some v =>
      have hv : v ∈ t.users := List.mem_of_find?_eq_some h
      have hid : v.id = u.id := by simpa using List.find?_some h
      rw [List.inj_on_of_nodup_map t.nodup hv hu hid]

/-- `sizeof(struct user)`, its hash handle included. -/
def sizeofUser : ℕ := 112

/-- `"anonymous"` -/
def anonymous : Bytes := [97, 110, 111, 110, 121, 109, 111, 117, 115]

/-- Adds a record for the id; `none` is -1, the id exists or the allocation failed. -/
def userTableAdd (heap : Heap) (t : UserTable) (id : Fd) : Checked (Option UserTable) :=
  match h : userTableFind t id with
  | some _ => return none
  | none => do
    if heap.serves sizeofUser then
      let name ← copyInto (.fill heap.fresh) (anonymous ++ [0])
      return some {
        users := t.users ++ [{ id, room := invalidRoom, name }]
        nodup := by
          have hid := userTableFind_eq_none.1 h
          rw [List.map_append, List.map_singleton]
          exact List.nodup_append_comm.1 (List.nodup_cons.2 ⟨hid, t.nodup⟩) }
    else return none

/-- A successful addition puts a new user behind the others: in no room, and called anonymous. -/
theorem userTableAdd_eq_some {heap : Heap} {t t' : UserTable} {id : Fd}
    (h : userTableAdd heap t id = .ok (some t')) :
    id ∉ t.ids ∧ ∃ name, Terminated name ∧ cstr name.toList = anonymous ∧
      t'.users = t.users ++ [{ id, room := invalidRoom, name }] := by
  unfold userTableAdd at h
  split at h
  · cases h
  · rename_i hnone
    split at h
    · obtain ⟨name, hname, h⟩ := Checked.bind_eq_ok.1 h
      obtain ⟨-, hlist⟩ := copyInto_eq_ok.1 hname
      rw [List.append_assoc, List.singleton_append] at hlist
      obtain ⟨hterm, hcstr⟩ := cstr_of_toList_eq (by decide) hlist
      cases h
      exact ⟨userTableFind_eq_none.1 hnone, name, hterm, hcstr, rfl⟩
    · cases h

/-- Removes the record with the id; `none` is -1, there is none. -/
def userTableDelete (t : UserTable) (id : Fd) : Option UserTable :=
  match userTableFind t id with
  | none => none
  | some _ => some {
    users := t.users.filter (·.id ≠ id)
    nodup := t.nodup.sublist (List.filter_sublist.map _) }

/-! ## The table around one record -/

/-- A record and the rest of the table: replacing or deleting the record leaves the rest as it is. -/
theorem UserTable.exists_rest {t : UserTable} {u : User} (hu : u ∈ t.users) :
    ∃ rest : List User, t.users.Perm (u :: rest) ∧ (∀ v ∈ rest, v.id ≠ u.id) ∧
      (∀ u' : User, u'.id = u.id → (t.set u').users.Perm (u' :: rest)) ∧
      ∃ t', userTableDelete t u.id = some t' ∧ t'.users.Perm rest := by
  obtain ⟨l₁, l₂, hsplit⟩ := List.append_of_mem hu
  have hnodup := t.nodup
  rw [hsplit, List.map_append, List.map_cons, List.nodup_append_comm, List.cons_append,
    List.nodup_cons, ← List.map_append] at hnodup
  have hrest : ∀ v ∈ l₂ ++ l₁, v.id ≠ u.id := fun v hv he =>
    hnodup.1 (List.mem_map.2 ⟨v, hv, he⟩)
  have hl₁ : ∀ v ∈ l₁, v.id ≠ u.id := fun v hv => hrest v (List.mem_append_right _ hv)
  have hl₂ : ∀ v ∈ l₂, v.id ≠ u.id := fun v hv => hrest v (List.mem_append_left _ hv)
  refine ⟨l₁ ++ l₂, ?_, ?_, ?_, ?_⟩
  · rw [hsplit]
    exact List.perm_middle
  · intro v hv
    exact (List.mem_append.1 hv).elim (hl₁ v) (hl₂ v)
  · intro u' hid
    have hkeep : ∀ l : List User, (∀ v ∈ l, v.id ≠ u.id) →
        l.map (fun v => if v.id = u'.id then u' else v) = l := by
      intro l hl
      rw [List.map_congr_left (g := id), List.map_id]
      intro v hv
      rw [if_neg (by rw [hid]; exact hl v hv)]
      rfl
    have hset : (t.set u').users = l₁ ++ u' :: l₂ := by
      change (t.users.map fun v => if v.id = u'.id then u' else v) = _
      rw [hsplit, List.map_append, List.map_cons, hkeep l₁ hl₁, hkeep l₂ hl₂, if_pos hid.symm]
    rw [hset]
    exact List.perm_middle
  · have hfind : userTableFind t u.id = some u := userTableFind_eq_some.2 ⟨hu, rfl⟩
    refine ⟨⟨t.users.filter (·.id ≠ u.id), t.nodup.sublist (List.filter_sublist.map _)⟩, ?_, ?_⟩
    · unfold userTableDelete
      rw [hfind]
    · have hkeep : ∀ l : List User, (∀ v ∈ l, v.id ≠ u.id) → l.filter (·.id ≠ u.id) = l := by
        intro l hl
        rw [List.filter_eq_self]
        intro v hv
        exact decide_eq_true (hl v hv)
      change (t.users.filter (·.id ≠ u.id)).Perm _
      rw [hsplit, List.filter_append, List.filter_cons_of_neg (by simp), hkeep l₁ hl₁, hkeep l₂ hl₂]

/-- The ids of the users of room `n` among some records. -/
theorem filter_room_cons (u : User) (rest : List User) (n : UInt8) :
    ((u :: rest).filter (·.room = n)).map User.id =
      if u.room = n then u.id :: (rest.filter (·.room = n)).map User.id
      else (rest.filter (·.room = n)).map User.id := by
  by_cases h : u.room = n <;> simp [h]

end ChatRooms
