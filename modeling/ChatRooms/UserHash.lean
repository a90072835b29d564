import Mathlib.Data.Int.Interval
import ChatRooms.UtHash.Items

/-!
# The user table on the hash table

`data_structures/user_table.c` on the hash table of `uthash.h`: a user record is known by its address, `malloc`
hands out an address that is not in use, and a handler writes to a record through the pointer that
`user_table_find` returned.  `UserTable` is the finite map that the handlers of the server work on;
`UserHash.Refines` relates the two.

`userHash_refines`: after any calls from an empty table the hash table has given the answers of the finite map
and holds the same users, unless the process has ended for want of memory.
-/

namespace ChatRooms

/-- The address of a user record. -/
abbrev Addr := ℕ

/-- The bytes of an `int`. -/
def intBytes (host : ByteOrder) (n : ℤ) : Bytes := host.store 4 (n % 2 ^ 32).toNat

/-- The hash of users and the memory behind it: the records, and the addresses of those that `malloc` has
handed out and `free` has not taken back. -/
structure UserHash where
  hash : UtHash Addr
  user : Addr → User
  live : List Addr

/-- A call of the user table, or writes of `room` and `name` through the pointer that `user_table_find`
returns for the id of `user`.  The record of an added user is put at `addr`. -/
inductive TableCall where
  | find (id : Fd)
  | add (heap : Heap) (addr : Addr) (id : Fd)
  | update (user : User)
  | delete (id : Fd)

/-- What a call returns: the record behind a pointer, or a status. -/
inductive TableAnswer where
  | found (user : Option User)
  | status (n : ℤ)

namespace UserHash

def userTableFind (host : ByteOrder) (s : UserHash) (id : Fd) : Except HashStop (Option Addr) :=
  hashFind s.hash (intBytes host id)

/-- Adds a user whose record `malloc` puts at `addr`. -/
def userTableAdd (host : ByteOrder) (heap : Heap) (addr : Addr) (s : UserHash) (id : Fd) :
    Except HashStop (UserHash × ℤ) := do
  match ← s.userTableFind host id with
  | some _ => return (s, -1)
  | none =>
    if heap.serves sizeofUser then
      match copyInto (.fill heap.fresh) (anonymous ++ [0]) with
      | .error f => throw (.fault f)
      | .ok name =>
        let user := Function.update s.user addr { id, room := invalidRoom, name }
        let hash ← hashAdd heap s.hash (intBytes host id) addr
        return ({ hash, user, live := s.live ++ [addr] }, 0)
    else return (s, -1)

def userTableDelete (host : ByteOrder) (s : UserHash) (id : Fd) : Except HashStop (UserHash × ℤ) := do
  match ← s.userTableFind host id with
  | none => return (s, -1)
  | some user =>
    let hash ← hashDelete s.hash user
    return ({ s with hash, live := s.live.erase user }, 0)

def call (host : ByteOrder) (s : UserHash) : TableCall → Except HashStop (UserHash × TableAnswer)
  | .find id => do
    let p ← s.userTableFind host id
    return (s, .found (p.map s.user))
  | .add heap addr id => do
    let (s, status) ← s.userTableAdd host heap addr id
    return (s, .status status)
  | .update user => do
    match ← s.userTableFind host user.id with
    | none => throw (.fault .null)
    | some p => return ({ s with user := Function.update s.user p user }, .found (some user))
  | .delete id => do
    let (s, status) ← s.userTableDelete host id
    return (s, .status status)

/-- Calls one after another, with their answers. -/
def calls (host : ByteOrder) : UserHash → List TableCall → Except HashStop (UserHash × List TableAnswer)
  | s, [] => return (s, [])
  | s, c :: cs => do
    let (s, answer) ← s.call host c
    let (s, answers) ← calls host s cs
    return (s, answer :: answers)

/-- `struct user *user_table = NULL` -/
def empty (garbage : Addr → User) : UserHash where
  hash := ⟨⟨fun _ => none, fun _ => none⟩, ⟨fun _ => none, fun _ => none⟩, fun _ => 0, fun _ => [], none⟩
  user := garbage
  live := []

end UserHash

namespace UserTable

/-- One call on the finite map. -/
def call (t : UserTable) : TableCall → Checked (UserTable × TableAnswer)
  | .find id => return (t, .found (userTableFind t id))
  | .add heap _ id => do
    match ← userTableAdd heap t id with
    | none => return (t, .status (-1))
    | some t => return (t, .status 0)
  | .update user =>
    match userTableFind t user.id with
    | none => throw .null
    | some _ => return (t.set user, .found (some user))
  | .delete id =>
    match userTableDelete t id with
    | none => return (t, .status (-1))
    | some t => return (t, .status 0)

/-- Calls one after another, with their answers. -/
def calls : UserTable → List TableCall → Checked (UserTable × List TableAnswer)
  | t, [] => return (t, [])
  | t, c :: cs => do
    let (t, answer) ← t.call c
    let (t, answers) ← calls t cs
    return (t, answer :: answers)

end UserTable

/-! ## Refinement -/

/-- A descriptor, as a non-negative `int`. -/
def IsFd (id : ℤ) : Prop := 0 ≤ id ∧ id < 2 ^ 31

theorem intBytes_inj {host : ByteOrder} {m n : ℤ} (hm : IsFd m) (hn : IsFd n)
    (h : intBytes host m = intBytes host n) : m = n := by
  obtain ⟨hm0, hm⟩ := hm
  obtain ⟨hn0, hn⟩ := hn
  have hlt : ∀ k : ℤ, (k % 2 ^ 32).toNat < 256 ^ 4 := fun k => by norm_num; omega
  have hload := congrArg host.load h
  rw [intBytes, intBytes, ByteOrder.load_store_of_lt _ (hlt m), ByteOrder.load_store_of_lt _ (hlt n)] at hload
  omega

theorem userTableAdd_of_some {heap : Heap} {t : UserTable} {id : Fd} {u : User}
    (h : userTableFind t id = some u) : userTableAdd heap t id = .ok none := by
  unfold userTableAdd
  split
  · rfl
  · rename_i hnone
    rw [h] at hnone
    cases hnone

theorem userTableAdd_of_none {heap : Heap} {t : UserTable} {id : Fd} (h : userTableFind t id = none)
    {name : CArray UInt8 nameSizeLimit} (hname : copyInto (.fill heap.fresh) (anonymous ++ [0]) = .ok name) :
    if heap.serves sizeofUser then ∃ t', userTableAdd heap t id = .ok (some t') ∧
      t'.users = t.users ++ [{ id, room := invalidRoom, name }]
    else userTableAdd heap t id = .ok none := by
  by_cases hserves : heap.serves sizeofUser = true
  · rw [if_pos hserves]
    unfold userTableAdd
    split
    · rename_i u hsome
      rw [h] at hsome
      cases hsome
    · rw [hname, if_pos hserves]
      exact ⟨_, rfl, rfl⟩
  · rw [if_neg hserves]
    unfold userTableAdd
    split
    · rfl
    · rw [if_neg hserves]
      rfl

/-- The hash of users holds the records of the finite map, in the order of its list; every record that is in
use is in the table. -/
structure UserHash.Refines (host : ByteOrder) (s : UserHash) (t : UserTable) : Prop where
  represents : s.hash.Represents s.live
  users : t.users = s.live.map s.user
  key : ∀ a ∈ s.live, s.hash.key a = intBytes host (s.user a).id
  hashv : ∀ a ∈ s.live, s.hash.hashv a = hashJen (s.hash.key a)
  range : ∀ a ∈ s.live, IsFd (s.user a).id

namespace UserHash.Refines

variable {host : ByteOrder} {s : UserHash} {t : UserTable}

theorem empty (garbage : Addr → User) : Refines host (.empty garbage) .empty where
  represents := rfl
  users := rfl
  key := fun _ ha => absurd ha List.not_mem_nil
  hashv := fun _ ha => absurd ha List.not_mem_nil
  range := fun _ ha => absurd ha List.not_mem_nil

theorem nodup_ids (h : Refines host s t) : (s.live.map fun a => (s.user a).id).Nodup := by
  have := t.nodup
  rwa [h.users, List.map_map] at this

theorem hashed (h : Refines host s t) : Hashed s.hash s.live where
  hashv := h.hashv
  inj := by
    intro a ha b hb hkey
    rw [h.key a ha, h.key b hb] at hkey
    exact List.inj_on_of_nodup_map h.nodup_ids ha hb (intBytes_inj (h.range a ha) (h.range b hb) hkey)

/-- There are fewer records than the counters can count. -/
theorem length_lt (h : Refines host s t) : s.live.length + 1 < 2 ^ 32 := by
  have hsub : (s.live.map fun a => (s.user a).id).toFinset ⊆ Finset.Ico (0 : ℤ) (2 ^ 31) := by
    intro fd hfd
    obtain ⟨a, ha, rfl⟩ := List.mem_map.1 (List.mem_toFinset.1 hfd)
    exact Finset.mem_Ico.2 (h.range a ha)
  have hcard := Finset.card_le_card hsub
  rw [List.toFinset_card_of_nodup h.nodup_ids, List.length_map, Int.card_Ico] at hcard
  omega

/-- A search returns the address of the record that the finite map finds. -/
theorem find (h : Refines host s t) {id : Fd} (hid : IsFd id) :
    s.userTableFind host id = .ok (s.live.find? fun a => (s.user a).id = id) ∧
      (s.live.find? fun a => (s.user a).id = id).map s.user = ChatRooms.userTableFind t id := by
  constructor
  · rw [UserHash.userTableFind, hashFind_eq h.represents h.hashed]
    congr 1
    apply find?_eq_of_unique
    · intro a
      simp only [decide_eq_true_eq]
      refine and_congr_right fun ha => ?_
      rw [h.key a ha]
      exact ⟨intBytes_inj (h.range a ha) hid, fun he => by rw [he]⟩
    · intro a ha b hb hia hib
      rw [decide_eq_true_eq] at hia hib
      exact List.inj_on_of_nodup_map h.nodup_ids ha hb (hia.trans hib.symm)
  · rw [ChatRooms.userTableFind, h.users, List.find?_map]
    rfl

/-- An addition does what the finite map does, or ends the process for want of memory. -/
theorem add (h : Refines host s t) {heap : Heap} (hheap : heap.Bounded) {addr : Addr} (haddr : addr ∉ s.live)
    {id : Fd} (hid : IsFd id) :
    s.userTableAdd host heap addr id = .error .outOfMemory ∨
      (ChatRooms.userTableAdd heap t id = .ok none ∧ s.userTableAdd host heap addr id = .ok (s, -1)) ∨
      ∃ t' s', ChatRooms.userTableAdd heap t id = .ok (some t') ∧ s.userTableAdd host heap addr id = .ok (s', 0) ∧
        Refines host s' t' := by
  obtain ⟨hfind, hmap⟩ := h.find hid
  rw [UserHash.userTableAdd, hfind, HashStop.ok_bind]
  cases hp : s.live.find? fun a => (s.user a).id = id with
  | some p =>
    rw [hp] at hmap
    exact .inr (.inl ⟨userTableAdd_of_some hmap.symm, rfl⟩)
  | none =>
    rw [hp] at hmap
    obtain ⟨name, hname, -⟩ := copyInto_string (.fill heap.fresh : CArray UInt8 nameSizeLimit)
      (show 0 ∉ anonymous by decide) (by decide)
    have hmapped := userTableAdd_of_none hmap.symm hname
    dsimp only
    by_cases hserves : heap.serves sizeofUser = true
    · rw [if_pos hserves] at hmapped ⊢
      obtain ⟨t', hmapped, husers⟩ := hmapped
      rw [hname]
      dsimp only
      rcases hashAdd_spec hheap h.represents haddr h.length_lt (intBytes host id) with
        hstop | ⟨hash', hadd, hrepresents, hkey, hhashv⟩
      · rw [hstop]
        exact .inl rfl
      rw [hadd]
      have hne : ∀ a ∈ s.live, a ≠ addr := fun a ha => ne_of_mem_of_not_mem ha haddr
      refine .inr (.inr ⟨t', _, hmapped, rfl, hrepresents, ?_, ?_, ?_, ?_⟩)
      · rw [husers, List.map_append, List.map_singleton]
        dsimp only
        rw [Function.update_self, h.users]
        congr 1
        apply List.map_congr_left
        exact fun a ha => (Function.update_of_ne (hne a ha) _ _).symm
      · intro a ha
        dsimp only
        rw [hkey]
        rcases List.mem_append.1 ha with ha | ha
        · rw [Function.update_of_ne (hne a ha), Function.update_of_ne (hne a ha), h.key a ha]
        · obtain rfl := List.mem_singleton.1 ha
          rw [Function.update_self, Function.update_self]
      · intro a ha
        dsimp only
        rw [hkey, hhashv]
        rcases List.mem_append.1 ha with ha | ha
        · rw [Function.update_of_ne (hne a ha), Function.update_of_ne (hne a ha), h.hashv a ha]
        · obtain rfl := List.mem_singleton.1 ha
          rw [Function.update_self, Function.update_self]
      · intro a ha
        dsimp only
        rcases List.mem_append.1 ha with ha | ha
        · rw [Function.update_of_ne (hne a ha)]
          exact h.range a ha
        · obtain rfl := List.mem_singleton.1 ha
          rw [Function.update_self]
          exact hid
    · rw [if_neg hserves] at hmapped ⊢
      exact .inr (.inl ⟨hmapped, rfl⟩)

/-- A deletion does what the finite map does. -/
theorem delete (h : Refines host s t) {id : Fd} (hid : IsFd id) :
    (ChatRooms.userTableDelete t id = none ∧ s.userTableDelete host id = .ok (s, -1)) ∨
      ∃ t' s', ChatRooms.userTableDelete t id = some t' ∧ s.userTableDelete host id = .ok (s', 0) ∧
        Refines host s' t' := by
  obtain ⟨hfind, hmap⟩ := h.find hid
  rw [UserHash.userTableDelete, hfind, HashStop.ok_bind]
  unfold ChatRooms.userTableDelete
  split
  · rename_i hnone
    rw [hnone] at hmap
    rw [Option.map_eq_none_iff.1 hmap]
    exact .inl ⟨rfl, rfl⟩
  · rename_i u hsome
    rw [hsome] at hmap
    obtain ⟨p, hp, -⟩ := Option.map_eq_some_iff.1 hmap
    have hlive : p ∈ s.live := List.mem_of_find?_eq_some hp
    have hpid : (s.user p).id = id := by simpa using List.find?_some hp
    obtain ⟨hash', hdel, hrepresents, hkey, hhashv⟩ := hashDelete_spec h.represents hlive
      (Nat.lt_of_succ_lt h.length_lt)
    rw [hp]
    dsimp only
    rw [hdel]
    have hkept : ∀ a ∈ s.live.erase p, a ∈ s.live := fun a ha => List.mem_of_mem_erase ha
    refine .inr ⟨_, _, rfl, rfl, hrepresents, ?_, ?_, ?_, fun a ha => h.range a (hkept a ha)⟩
    · -- The records with another id are those at another address.
      have hsame : ∀ a ∈ s.live, decide ((s.user a).id ≠ id) = decide (a ≠ p) := by
        intro a ha
        rw [decide_eq_decide, not_iff_not]
        constructor
        · intro haid
          exact List.inj_on_of_nodup_map h.nodup_ids ha hlive (haid.trans hpid.symm)
        · rintro rfl
          exact hpid
      change t.users.filter _ = _
      rw [h.users, List.filter_map, h.represents.nodup.erase_eq_filter]
      congr 1
      apply List.filter_congr
      intro a ha
      rw [Function.comp_apply, hsame a ha]
      by_cases hap : a = p <;> simp [hap]
    · intro a ha
      rw [hkey]
      exact h.key a (hkept a ha)
    · intro a ha
      rw [hkey, hhashv]
      exact h.hashv a (hkept a ha)

/-- Writes through the pointer of a record change this record. -/
theorem update (h : Refines host s t) {p : Addr} (hp : p ∈ s.live) {u : User} (hu : (s.user p).id = u.id) :
    Refines host { s with user := Function.update s.user p u } (t.set u) where
  represents := h.represents
  users := by
    change t.users.map _ = _
    rw [h.users, List.map_map]
    apply List.map_congr_left
    intro a ha
    rw [Function.comp_apply]
    dsimp only
    by_cases hap : a = p
    · rw [hap, if_pos hu, Function.update_self]
    · rw [if_neg, Function.update_of_ne hap]
      exact fun he => hap (List.inj_on_of_nodup_map h.nodup_ids ha hp (he.trans hu.symm))
  key := by
    intro a ha
    dsimp only
    by_cases hap : a = p
    · rw [hap, Function.update_self, h.key p hp, hu]
    · rw [Function.update_of_ne hap, h.key a ha]
  hashv := h.hashv
  range := by
    intro a ha
    dsimp only
    by_cases hap : a = p
    · rw [hap, Function.update_self, ← hu]
      exact h.range p hp
    · rw [Function.update_of_ne hap]
      exact h.range a ha

end UserHash.Refines

/-! ## Runs of calls -/

/-- The ids of a call are descriptors, and its allocator is bounded. -/
def TableCall.Proper : TableCall → Prop
  | .find id | .delete id => IsFd id
  | .add heap _ id => IsFd id ∧ heap.Bounded
  | .update user => IsFd user.id

/-- The address of an added record is not in use. -/
def TableCall.Placed (live : List Addr) : TableCall → Prop
  | .add _ addr _ => addr ∉ live
  | .find _ | .update _ | .delete _ => True

/-- `malloc` puts every record at an address that is not in use at that call; one that `free` has taken back
may be handed out again. -/
def UserHash.Placed (host : ByteOrder) : UserHash → List TableCall → Prop
  | _, [] => True
  | s, c :: cs => c.Placed s.live ∧ match s.call host c with
    | .ok (s, _) => UserHash.Placed host s cs
    | .error _ => True

instance (live : List Addr) : ∀ c : TableCall, Decidable (c.Placed live)
  | .add _ addr _ => inferInstanceAs (Decidable (addr ∉ live))
  | .find _ | .update _ | .delete _ => .isTrue trivial

instance UserHash.decidablePlaced (host : ByteOrder) :
    ∀ (s : UserHash) (cs : List TableCall), Decidable (s.Placed host cs)
  | _, [] => .isTrue trivial
  | s, c :: cs =>
    have : Decidable (match s.call host c with
        | .ok (s, _) => UserHash.Placed host s cs
        | .error _ => True) :=
      match s.call host c with
      | .ok (s, _) => decidablePlaced host s cs
      | .error _ => .isTrue trivial
    inferInstanceAs (Decidable (_ ∧ _))

/-- One call on the hash table and on the finite map: they give the same answer, and fail together. -/
theorem UserHash.Refines.call {host : ByteOrder} {s : UserHash} {t : UserTable} (h : UserHash.Refines host s t)
    {c : TableCall} (hplaced : c.Placed s.live) (hc : c.Proper) :
    s.call host c = .error .outOfMemory ∨
      (t.call c = .error .null ∧ s.call host c = .error (.fault .null)) ∨
      ∃ t' s' answer, t.call c = .ok (t', answer) ∧ s.call host c = .ok (s', answer) ∧
        UserHash.Refines host s' t' := by
  cases c with
  | find id =>
    obtain ⟨hfind, hmap⟩ := h.find hc
    refine .inr (.inr ⟨t, s, .found (ChatRooms.userTableFind t id), rfl, ?_, h⟩)
    rw [UserHash.call, hfind, HashStop.ok_bind, hmap]
    rfl
  | add heap addr id =>
    rw [UserHash.call, UserTable.call]
    rcases h.add hc.2 hplaced hc.1 with hstop | ⟨hmap, hhash⟩ | ⟨t', s', hmap, hhash, h'⟩
    · rw [hstop]
      exact .inl rfl
    · rw [hmap, hhash]
      exact .inr (.inr ⟨t, s, _, rfl, rfl, h⟩)
    · rw [hmap, hhash]
      exact .inr (.inr ⟨t', s', _, rfl, rfl, h'⟩)
  | update user =>
    obtain ⟨hfind, hmap⟩ := h.find hc
    rw [UserHash.call, UserTable.call, hfind, HashStop.ok_bind]
    cases hp : s.live.find? fun a => (s.user a).id = user.id with
    | none =>
      rw [hp] at hmap
      rw [← hmap]
      exact .inr (.inl ⟨rfl, rfl⟩)
    | some p =>
      rw [hp] at hmap
      rw [← hmap]
      have hpid : (s.user p).id = user.id := by simpa using List.find?_some hp
      exact .inr (.inr ⟨_, _, _, rfl, rfl, h.update (List.mem_of_find?_eq_some hp) hpid⟩)
  | delete id =>
    rw [UserHash.call, UserTable.call]
    rcases h.delete hc with ⟨hmap, hhash⟩ | ⟨t', s', hmap, hhash, h'⟩
    · rw [hmap, hhash]
      exact .inr (.inr ⟨t, s, _, rfl, rfl, h⟩)
    · rw [hmap, hhash]
      exact .inr (.inr ⟨t', s', _, rfl, rfl, h'⟩)

/-- Calls one after another: the process has ended for want of memory, or hash table and finite map have both
met a null pointer, or they have given the same answers and hold the same users. -/
theorem UserHash.Refines.calls {host : ByteOrder} {s : UserHash} {t : UserTable} (h : UserHash.Refines host s t)
    {cs : List TableCall} (hplaced : s.Placed host cs) (hcs : ∀ c ∈ cs, c.Proper) :
    s.calls host cs = .error .outOfMemory ∨
      (t.calls cs = .error .null ∧ s.calls host cs = .error (.fault .null)) ∨
      ∃ t' s' answers, t.calls cs = .ok (t', answers) ∧ s.calls host cs = .ok (s', answers) ∧
        UserHash.Refines host s' t' := by
  induction cs generalizing s t with
  | nil => exact .inr (.inr ⟨t, s, [], rfl, rfl, h⟩)
  | cons c cs ih =>
    rw [UserHash.calls, UserTable.calls]
    obtain ⟨hfirst, hrest⟩ := hplaced
    rcases h.call hfirst (hcs c List.mem_cons_self) with
      hstop | ⟨hmap, hhash⟩ | ⟨t', s', answer, hmap, hhash, h'⟩
    · rw [hstop]
      exact .inl rfl
    · rw [hmap, hhash]
      exact .inr (.inl ⟨rfl, rfl⟩)
    · rw [hhash] at hrest
      rw [hmap, hhash, HashStop.ok_bind, Checked.ok_bind]
      dsimp only
      rcases ih h' hrest fun c hc => hcs c (List.mem_cons_of_mem _ hc) with
        hstop | ⟨hmap', hhash'⟩ | ⟨t'', s'', answers, hmap', hhash', h''⟩
      · rw [hstop]
        exact .inl rfl
      · rw [hmap', hhash']
        exact .inr (.inl ⟨rfl, rfl⟩)
      · rw [hmap', hhash']
        exact .inr (.inr ⟨t'', s'', _, rfl, rfl, h''⟩)

/-- The hash table is the finite map.  After any calls from an empty table, with every record at any address
that is not in use, the process has ended for want of memory, or a write through a null pointer has been asked of
both, or hash table and finite map have given the same answers and hold the same users in the same order; then
the records in use are those in the table, and the library's integrity check finds nothing. -/
theorem userHash_refines (host : ByteOrder) (garbage : Addr → User) {cs : List TableCall}
    (hplaced : (UserHash.empty garbage).Placed host cs) (hcs : ∀ c ∈ cs, c.Proper) :
    (UserHash.empty garbage).calls host cs = .error .outOfMemory ∨
      (UserTable.empty.calls cs = .error .null ∧
        (UserHash.empty garbage).calls host cs = .error (.fault .null)) ∨
      ∃ t s answers, UserTable.empty.calls cs = .ok (t, answers) ∧
        (UserHash.empty garbage).calls host cs = .ok (s, answers) ∧
        t.users = s.live.map s.user ∧ s.hash.Represents s.live ∧ hashFsck s.hash = true := by
  rcases (UserHash.Refines.empty garbage).calls hplaced hcs with
    hstop | hnull | ⟨t, s, answers, hmap, hhash, h⟩
  · exact .inl hstop
  · exact .inr (.inl hnull)
  · exact .inr (.inr ⟨t, s, answers, hmap, hhash, h.users, h.represents, hashFsck_of_represents h.represents⟩)

/-- An allocator with 1 MiB of zeroed memory for a request of some bytes. -/
def Heap.mebibyte : Heap := ⟨fun n => decide (0 < n ∧ n ≤ 2 ^ 20), fun _ => 0⟩

theorem Heap.mebibyte_bounded : Heap.mebibyte.Bounded := by
  intro n hn
  have hle : 0 < n ∧ n ≤ 2 ^ 20 := by simpa [Heap.mebibyte] using hn
  omega

/-- Two users are added, the second one joins a room, the first one leaves, and a third one gets its block. -/
def someCalls : List TableCall :=
  [.add .mebibyte 10 4, .add .mebibyte 20 5, .update ⟨5, 3, .fill fun _ => 0⟩, .delete 4, .add .mebibyte 10 6,
    .find 5]

theorem userHash_refines_three : ∃ t s answers,
    UserTable.empty.calls someCalls = .ok (t, answers) ∧
    (UserHash.empty fun _ => ⟨0, 0, .fill fun _ => 0⟩).calls .little someCalls = .ok (s, answers) ∧
    t.users = s.live.map s.user ∧ s.hash.Represents s.live ∧ hashFsck s.hash = true := by
  have hok : ((UserHash.empty fun _ => ⟨0, 0, .fill fun _ => 0⟩).calls .little someCalls).isOk = true := by
    decide +kernel
  have hplaced : (UserHash.empty fun _ => ⟨0, 0, .fill fun _ => 0⟩).Placed .little someCalls := by
    decide +kernel
  have hproper : ∀ c ∈ someCalls, c.Proper := by
    simp [someCalls, TableCall.Proper, IsFd, Heap.mebibyte_bounded]
  rcases userHash_refines .little (fun _ => ⟨0, 0, .fill fun _ => 0⟩) hplaced hproper with
    h | ⟨-, h⟩ | h
  · rw [h] at hok
    cases hok
  · rw [h] at hok
    cases hok
  · exact h

end ChatRooms
