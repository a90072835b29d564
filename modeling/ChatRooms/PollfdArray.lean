import Mathlib.Tactic.Ring
import ChatRooms.Rooms

/-!
# The poll array

`data_structures/pollfd_array.c`: a growable array of `struct pollfd`.  The block behind `fds` is
the list of its cells; the entries are the first `len` of them.  What `reallocarray` does is the
environment's choice, a `Realloc`.

`pollfdArrayAppend` writes its entry through a copy of `fds` made before the resize.  When the
resize moved the block, that copy points to the old block, so the write does not reach the array.

* `entries_delete`: what a deletion does to the entries.
* `pollfdArrayAppend_eq_documented`: an append does what it documents, unless the block moves.
* `arrayRun_arithmetic`: the arithmetic of `len` and `capacity` over any run.
-/

namespace ChatRooms

/-- A `short` of event bits. -/
abbrev Events := BitVec 16

/-- `POLLIN` -/
def pollin : Events := 0x0001

/-- `POLLHUP` -/
def pollhup : Events := 0x0010

/-- `struct pollfd` -/
structure Pollfd where
  fd : Fd
  events : Events
  revents : Events
deriving DecidableEq, Repr

/-- `struct pollfd_array` -/
structure PollfdArray where
  fds : List Pollfd
  len : ℕ
  capacity : ℕ
deriving DecidableEq, Repr

/-- `INITIAL_CAPACITY` -/
abbrev initialCapacity : ℕ := 5

/-- The value of a `uint32_t`. -/
def u32 (n : ℕ) : ℕ := n % 2 ^ 32

theorem u32_of_lt {n : ℕ} (h : n < 2 ^ 32) : u32 n = n := Nat.mod_eq_of_lt h

namespace PollfdArray

/-- The entries of the array. -/
def entries (a : PollfdArray) : List Pollfd := a.fds.take a.len

end PollfdArray

/-- What one call of `reallocarray` does: it fails, or resizes the block in place, or moves it.  The
cells of an added part hold `fresh`. -/
inductive Realloc where
  | failed
  | inPlace (fresh : ℕ → Pollfd)
  | moved (fresh : ℕ → Pollfd)

def resize (newCap : ℕ) (a : PollfdArray) : Realloc → Option PollfdArray
  | .failed => none
  | .inPlace fresh | .moved fresh =>
    some { a with
      fds := a.fds.take newCap ++ (List.range (newCap - a.fds.length)).map fresh
      capacity := newCap }

/-- `sizeof(struct pollfd_array)` -/
def sizeofPollfdArray : ℕ := 16

/-- `sizeof(struct pollfd)` -/
def sizeofPollfd : ℕ := 8

/-- The initial array; `none` when one of the two allocations fails. -/
def pollfdArrayInit (heap : Heap) : Option PollfdArray :=
  if heap.serves sizeofPollfdArray && heap.serves (initialCapacity * sizeofPollfd) then
    some { fds := List.replicate initialCapacity ⟨0, 0, 0⟩, len := 0, capacity := initialCapacity }
  else none

/-- The array when an entry is about to be written, and whether the copy of `fds` still points to
its block; `none` when the resize failed. -/
def growForAppend (a : PollfdArray) (r : Realloc) : Option (PollfdArray × Bool) :=
  if u32 (a.len + 1) > a.capacity then
    match r with
    | .moved fresh => (resize (u32 (2 * a.capacity)) a (.moved fresh)).map (·, false)
    | r => (resize (u32 (2 * a.capacity)) a r).map (·, true)
  else some (a, true)

/-- Appends an entry; the value returned is 0 on success and -1 on failure. -/
def pollfdArrayAppend (a : PollfdArray) (fd : Fd) (events : Events) (r : Realloc) : PollfdArray × ℤ :=
  match growForAppend a r with
  | none => (a, -1)
  | some (b, live) =>
    let fds := if live then b.fds.set a.len ⟨fd, events, 0⟩ else b.fds
    ({ b with fds, len := u32 (b.len + 1) }, 0)

/-- The condition under which a deletion that left `len` entries halves the capacity. -/
def shouldShrink (len capacity : ℕ) : Prop := len ≤ capacity / 2 ∧ capacity / 2 ≥ initialCapacity

instance (len capacity : ℕ) : Decidable (shouldShrink len capacity) :=
  inferInstanceAs (Decidable (_ ∧ _))

/-- Deletes the entry at index `i` by moving the last entry to its place; the value returned is 0 on
success and -1 on failure. -/
def pollfdArrayDelete (a : PollfdArray) (i : ℕ) (r : Realloc) : PollfdArray × ℤ :=
  if i ≥ a.len then (a, -1)
  else
    let b := { a with
      fds := a.fds.set i (a.fds.getD (a.len - 1) ⟨0, 0, 0⟩)
      len := u32 (a.len + 2 ^ 32 - 1) }
    if shouldShrink b.len a.capacity then
      match resize (a.capacity / 2) b r with
      | none => (b, 0)
      | some b => (b, 0)
    else (b, 0)

theorem pollfdArrayDelete_of_ge {a : PollfdArray} {i : ℕ} (hi : i ≥ a.len) (r : Realloc) :
    pollfdArrayDelete a i r = (a, -1) := if_pos hi

/-- A deletion inside the array succeeds, also when the block cannot be shrunk. -/
theorem pollfdArrayDelete_of_lt {a : PollfdArray} {i : ℕ} (hi : i < a.len) (r : Realloc) :
    ∃ b, pollfdArrayDelete a i r = (b, 0) := by
  have hge : ¬ i ≥ a.len := by omega
  unfold pollfdArrayDelete
  rw [if_neg hge]
  generalize ({ a with
      fds := a.fds.set i (a.fds.getD (a.len - 1) ⟨0, 0, 0⟩)
      len := u32 (a.len + 2 ^ 32 - 1) } : PollfdArray) = b
  dsimp only
  by_cases hs : shouldShrink b.len a.capacity
  · rw [if_pos hs]
    cases resize (a.capacity / 2) b r with
    | none => exact ⟨b, rfl⟩
    | some c => exact ⟨c, rfl⟩
  · rw [if_neg hs]
    exact ⟨b, rfl⟩

/-! ## Arithmetic over runs -/

/-- The deletion at index `i` tries to shrink the array and fails to. -/
def shrinkFails (a : PollfdArray) (i : ℕ) : Realloc → Bool
  | .failed => decide (i < a.len) && decide (shouldShrink (a.len - 1) a.capacity)
  | _ => false

/-- The arrays that calls of append and delete, in any order, reach from the initial one while there
are never more than `2 ^ 31` entries; the second index says that no shrink has failed. -/
inductive ArrayRun : PollfdArray → Bool → Prop
  | init (heap : Heap) {a : PollfdArray} (h : pollfdArrayInit heap = some a) : ArrayRun a true
  | append {a : PollfdArray} {ok : Bool} (h : ArrayRun a ok) (fd : Fd) (events : Events) (r : Realloc)
      (bound : (pollfdArrayAppend a fd events r).1.len ≤ 2 ^ 31) :
      ArrayRun (pollfdArrayAppend a fd events r).1 ok
  | delete {a : PollfdArray} {ok : Bool} (h : ArrayRun a ok) (i : ℕ) (r : Realloc) :
      ArrayRun (pollfdArrayDelete a i r).1 (ok && !shrinkFails a i r)

/-- What a run keeps about `len` and `capacity`: the capacity is a doubling of the initial one and
holds the entries, of which there are at most `2 ^ 31`. -/
structure SoundSizes (a : PollfdArray) : Prop where
  capacity_eq : ∃ k ≤ 29, a.capacity = 5 * 2 ^ k
  len_le : a.len ≤ a.capacity
  bound : a.len ≤ 2 ^ 31

/-- The successful resizes, and what they make of the sizes. -/
theorem resize_sizes {newCap : ℕ} {a b : PollfdArray} {r : Realloc} (h : resize newCap a r = some b) :
    b.len = a.len ∧ b.capacity = newCap := by
  cases r <;> simp only [resize, Option.some.injEq, reduceCtorEq] at h <;> subst h <;> exact ⟨rfl, rfl⟩

theorem growForAppend_sizes {a b : PollfdArray} {live : Bool} {r : Realloc}
    (h : growForAppend a r = some (b, live)) :
    b.len = a.len ∧ (u32 (a.len + 1) > a.capacity ∧ b.capacity = u32 (2 * a.capacity) ∨
      ¬ u32 (a.len + 1) > a.capacity ∧ b = a) := by
  unfold growForAppend at h
  split at h
  · rename_i hgrow
    have hb : ∃ r, resize (u32 (2 * a.capacity)) a r = some b := by
      split at h <;> obtain ⟨b', hb, he⟩ := Option.map_eq_some_iff.1 h <;> cases he <;>
        exact ⟨_, hb⟩
    obtain ⟨r, hb⟩ := hb
    exact ⟨(resize_sizes hb).1, .inl ⟨hgrow, (resize_sizes hb).2⟩⟩
  · rename_i hgrow
    cases h
    exact ⟨rfl, .inr ⟨hgrow, rfl⟩⟩

namespace SoundSizes

variable {a : PollfdArray}

theorem u32_succ (h : SoundSizes a) : u32 (a.len + 1) = a.len + 1 :=
  u32_of_lt (by have := h.bound; omega)

/-- A resize is only needed at a full array below the largest capacity. -/
theorem doubling (h : SoundSizes a) (hgrow : u32 (a.len + 1) > a.capacity) :
    a.len = a.capacity ∧ ∃ k ≤ 28, a.capacity = 5 * 2 ^ k := by
  obtain ⟨k, hk, hcap⟩ := h.capacity_eq
  rw [h.u32_succ] at hgrow
  have hlen := h.len_le
  refine ⟨by omega, k, ?_, hcap⟩
  -- At `k = 29` the capacity is above the number of descriptors there are.
  have hbound := h.bound
  by_contra hne
  have : k = 29 := by omega
  subst this
  norm_num at hcap
  omega

theorem doubling_lt (h : SoundSizes a) (hgrow : u32 (a.len + 1) > a.capacity) :
    2 * a.capacity < 2 ^ 32 := by
  obtain ⟨-, k, hk, hcap⟩ := h.doubling hgrow
  have : 2 ^ k ≤ 2 ^ 28 := Nat.pow_le_pow_right (by decide) hk
  omega

/-- The sizes of the array an entry is written to. -/
theorem grown (h : SoundSizes a) {b : PollfdArray} {live : Bool} {r : Realloc}
    (hg : growForAppend a r = some (b, live)) :
    b.len = a.len ∧ a.len < b.capacity ∧ (∃ k ≤ 29, b.capacity = 5 * 2 ^ k) ∧
      (b.capacity = a.capacity ∨ b.capacity = 2 * a.len) := by
  obtain ⟨hlen, ⟨hgrow, hcap⟩ | ⟨hgrow, rfl⟩⟩ := growForAppend_sizes hg
  · obtain ⟨hfull, k, hk, hpow⟩ := h.doubling hgrow
    rw [u32_of_lt (h.doubling_lt hgrow)] at hcap
    have : 0 < 2 ^ k := Nat.two_pow_pos k
    refine ⟨hlen, by omega, ⟨k + 1, by omega, ?_⟩, .inr (by rw [hcap, hfull])⟩
    rw [hcap, hpow]
    ring
  · rw [h.u32_succ] at hgrow
    exact ⟨rfl, by omega, h.capacity_eq, .inl rfl⟩

/-- The sizes after an append. -/
theorem append_cases (h : SoundSizes a) (fd : Fd) (events : Events) (r : Realloc) :
    pollfdArrayAppend a fd events r = (a, -1) ∨
      ∃ b live, growForAppend a r = some (b, live) ∧
        (pollfdArrayAppend a fd events r).2 = 0 ∧
        (pollfdArrayAppend a fd events r).1.len = a.len + 1 ∧
        (pollfdArrayAppend a fd events r).1.capacity = b.capacity := by
  unfold pollfdArrayAppend
  split
  · exact .inl rfl
  · rename_i b live hg
    refine .inr ⟨b, live, hg, rfl, ?_, rfl⟩
    rw [(h.grown hg).1, h.u32_succ]

/-- The sizes after a deletion of an entry: the capacity is halved or stays, and it stays when the
shrink is not due or failed. -/
theorem delete_cases (h : SoundSizes a) (i : ℕ) (r : Realloc) :
    pollfdArrayDelete a i r = (a, -1) ∧ a.len ≤ i ∨
      i < a.len ∧ (pollfdArrayDelete a i r).2 = 0 ∧
        (pollfdArrayDelete a i r).1.len = a.len - 1 ∧
        (shouldShrink (a.len - 1) a.capacity ∧ shrinkFails a i r = false ∧
            (pollfdArrayDelete a i r).1.capacity = a.capacity / 2 ∨
          (¬ shouldShrink (a.len - 1) a.capacity ∨ shrinkFails a i r = true) ∧
            (pollfdArrayDelete a i r).1.capacity = a.capacity) := by
  by_cases hi : i ≥ a.len
  · exact .inl ⟨if_pos hi, hi⟩
  · have hlt : i < a.len := by omega
    have hlen : u32 (a.len + 2 ^ 32 - 1) = a.len - 1 := by
      have := h.bound
      unfold u32
      omega
    refine .inr ⟨hlt, ?_⟩
    unfold pollfdArrayDelete
    rw [if_neg hi, hlen]
    dsimp only
    by_cases hs : shouldShrink (a.len - 1) a.capacity
    · rw [if_pos hs]
      cases r with
      | failed => simp [resize, shrinkFails, hlt, hs]
      | inPlace fresh => simp [resize, shrinkFails, hs]
      | moved fresh => simp [resize, shrinkFails, hs]
    · rw [if_neg hs]
      exact ⟨rfl, rfl, .inr ⟨.inl hs, rfl⟩⟩

theorem append (h : SoundSizes a) (fd : Fd) (events : Events) (r : Realloc)
    (bound : (pollfdArrayAppend a fd events r).1.len ≤ 2 ^ 31) :
    SoundSizes (pollfdArrayAppend a fd events r).1 := by
  rcases h.append_cases fd events r with hf | ⟨b, live, hg, -, hlen, hcap⟩
  · rwa [hf]
  · obtain ⟨-, hroom, hpow, -⟩ := h.grown hg
    exact ⟨by rw [hcap]; exact hpow, by omega, bound⟩

theorem half_capacity (h : SoundSizes a) (hs : a.capacity / 2 ≥ 5) :
    2 * (a.capacity / 2) = a.capacity ∧ ∃ k ≤ 29, a.capacity / 2 = 5 * 2 ^ k := by
  obtain ⟨k, hk, hcap⟩ := h.capacity_eq
  cases k with
  | zero => omega
  | succ k =>
    rw [pow_succ] at hcap
    exact ⟨by omega, k, by omega, by omega⟩

theorem delete (h : SoundSizes a) (i : ℕ) (r : Realloc) : SoundSizes (pollfdArrayDelete a i r).1 := by
  have hlen := h.len_le
  have hbound := h.bound
  rcases h.delete_cases i r with ⟨hf, -⟩ | ⟨hlt, -, hl, ⟨hs, -, hc⟩ | ⟨-, hc⟩⟩
  · rwa [hf]
  · obtain ⟨hle, hmin⟩ := hs
    exact ⟨by rw [hc]; exact (h.half_capacity hmin).2, by omega, by omega⟩
  · exact ⟨by rw [hc]; exact h.capacity_eq, by omega, by omega⟩

end SoundSizes

/-- As long as no shrink failed, an array above the initial capacity is more than half full. -/
def Tight (a : PollfdArray) : Prop := a.capacity = 5 ∨ a.capacity < 2 * a.len

theorem ArrayRun.sound {a : PollfdArray} {ok : Bool} (h : ArrayRun a ok) :
    SoundSizes a ∧ (ok = true → Tight a) := by
  induction h with
  | init heap h =>
    unfold pollfdArrayInit at h
    split at h
    · cases h
      exact ⟨⟨⟨0, by decide, rfl⟩, by decide, by decide⟩, fun _ => .inl rfl⟩
    · cases h
  | @append a ok _ fd events r bound ih =>
    obtain ⟨hsizes, htight⟩ := ih
    refine ⟨hsizes.append fd events r bound, fun hok => ?_⟩
    rcases hsizes.append_cases fd events r with hf | ⟨b, live, hg, -, hlen, hcap⟩
    · rw [hf]
      exact htight hok
    · obtain ⟨-, -, -, hsame | hdouble⟩ := hsizes.grown hg
      · rcases htight hok with h5 | hlt
        · exact .inl (by rw [hcap, hsame, h5])
        · exact .inr (by omega)
      · exact .inr (by omega)
  | @delete a ok _ i r ih =>
    obtain ⟨hsizes, htight⟩ := ih
    refine ⟨hsizes.delete i r, fun hok => ?_⟩
    rw [Bool.and_eq_true, Bool.not_eq_true'] at hok
    rcases hsizes.delete_cases i r with ⟨hf, -⟩ | ⟨hlt, -, hl, ⟨hs, -, hc⟩ | ⟨hno, hc⟩⟩
    · rw [hf]
      exact htight hok.1
    · -- The shrink happens exactly when the array has become half full.
      obtain ⟨hle, hmin⟩ : a.len - 1 ≤ a.capacity / 2 ∧ a.capacity / 2 ≥ 5 := hs
      have heven := (hsizes.half_capacity hmin).1
      rcases htight hok.1 with h5 | htl
      · omega
      · exact .inr (by omega)
    · rcases hno with hs | hfail
      · replace hs : ¬ (a.len - 1 ≤ a.capacity / 2 ∧ a.capacity / 2 ≥ 5) := hs
        rcases htight hok.1 with h5 | htl
        · exact .inl (by rw [hc, h5])
        · obtain ⟨k, hk, hpow⟩ := hsizes.capacity_eq
          cases k with
          | zero => exact .inl (hc.trans hpow)
          | succ k =>
            rw [pow_succ] at hpow
            have : 0 < 2 ^ k := Nat.two_pow_pos k
            exact .inr (by omega)
      · rw [hfail] at hok
        cases hok.2

/-! ## Entries -/

/-- The block has room for the entries, and its size is the capacity. -/
structure PollfdArray.Wf (a : PollfdArray) : Prop where
  len_le : a.len ≤ a.capacity
  length_fds : a.fds.length = a.capacity
  capacity_pos : 0 < a.capacity

/-- The block of an array that an entry is about to be written to. -/
theorem length_growForAppend {a b : PollfdArray} {live : Bool} {r : Realloc}
    (h : growForAppend a r = some (b, live)) (hfds : a.fds.length = a.capacity) :
    b.fds.length = b.capacity := by
  have hresize : ∀ {newCap : ℕ} {r : Realloc} {c : PollfdArray}, resize newCap a r = some c →
      c.fds.length = c.capacity := by
    intro newCap r c hc
    cases r with
    | failed => cases hc
    | inPlace fresh | moved fresh =>
      cases hc
      simp only [List.length_append, List.length_take, List.length_map, List.length_range]
      omega
  unfold growForAppend at h
  split at h
  · split at h <;> obtain ⟨c, hc, he⟩ := Option.map_eq_some_iff.1 h <;> cases he <;> exact hresize hc
  · cases h
    exact hfds

/-- An append keeps the block in order, wherever it writes its entry. -/
theorem SoundSizes.wf_append {a : PollfdArray} (h : SoundSizes a) (hwf : a.Wf) (fd : Fd)
    (events : Events) (r : Realloc) : (pollfdArrayAppend a fd events r).1.Wf := by
  cases hg : growForAppend a r with
  | none =>
    rw [pollfdArrayAppend, hg]
    exact hwf
  | some grown =>
    obtain ⟨b, live⟩ := grown
    obtain ⟨hlen, hroom, -, -⟩ := h.grown hg
    have hfds := length_growForAppend hg hwf.length_fds
    have hle : u32 (b.len + 1) ≤ b.capacity := by
      rw [hlen, h.u32_succ]
      exact hroom
    rw [pollfdArrayAppend, hg]
    refine ⟨hle, ?_, Nat.zero_lt_of_lt hroom⟩
    dsimp only
    split
    · rw [List.length_set]
      exact hfds
    · exact hfds

/-- An append that succeeds leaves one more entry. -/
theorem SoundSizes.append_ok {a b : PollfdArray} (h : SoundSizes a) (hwf : a.Wf)
    (hbound : a.len < 2 ^ 31) {fd : Fd} {events : Events} {r : Realloc}
    (happ : pollfdArrayAppend a fd events r = (b, 0)) : SoundSizes b ∧ b.Wf ∧ b.len = a.len + 1 := by
  have hlen : b.len = a.len + 1 := by
    rcases h.append_cases fd events r with hfail | ⟨c, live, -, -, hlen, -⟩
    · rw [happ] at hfail
      cases hfail
    · rwa [happ] at hlen
  have hsizes := h.append fd events r (by rw [happ, hlen]; exact hbound)
  have hwf' := h.wf_append hwf fd events r
  rw [happ] at hsizes hwf'
  exact ⟨hsizes, hwf', hlen⟩

/-- What `pollfd_array_append` documents: on success the entry is behind the others, on failure the
array is as before. -/
structure Documented (append : PollfdArray → Fd → Events → Realloc → PollfdArray × ℤ) : Prop where
  success : ∀ {a : PollfdArray} {fd : Fd} {events : Events} {r : Realloc}, a.Wf →
    (append a fd events r).2 = 0 → (append a fd events r).1.Wf ∧
      (append a fd events r).1.entries = a.entries ++ [⟨fd, events, 0⟩]
  failure : ∀ {a : PollfdArray} {fd : Fd} {events : Events} {r : Realloc},
    (append a fd events r).2 ≠ 0 → (append a fd events r).1 = a

theorem Documented.append_ok {append : PollfdArray → Fd → Events → Realloc → PollfdArray × ℤ}
    (doc : Documented append) {a b : PollfdArray} (h : a.Wf) {fd : Fd} {events : Events} {r : Realloc}
    (happ : append a fd events r = (b, 0)) : b.Wf ∧ b.entries = a.entries ++ [⟨fd, events, 0⟩] := by
  have hok : (append a fd events r).2 = 0 := by rw [happ]
  have hdoc := doc.success h hok
  rwa [happ] at hdoc

/-- The append that has its documented effect also when the block moves: the entry is written to the
block the array has then. -/
def documentedAppend (a : PollfdArray) (fd : Fd) (events : Events) (r : Realloc) : PollfdArray × ℤ :=
  if a.len < a.capacity then ({ a with fds := a.fds.set a.len ⟨fd, events, 0⟩, len := a.len + 1 }, 0)
  else
    match r with
    | .failed => (a, -1)
    | .inPlace fresh | .moved fresh =>
      ({ fds := (a.fds ++ (List.range a.capacity).map fresh).set a.len ⟨fd, events, 0⟩
         len := a.len + 1
         capacity := 2 * a.capacity }, 0)

theorem PollfdArray.Wf.length_entries {a : PollfdArray} (h : a.Wf) : a.entries.length = a.len := by
  rw [PollfdArray.entries, List.length_take, h.length_fds, Nat.min_eq_left h.len_le]

/-- Writing the first free cell of a block. -/
theorem take_set_self {l : List Pollfd} {n : ℕ} (h : n < l.length) (x : Pollfd) :
    (l.set n x).take (n + 1) = l.take n ++ [x] := by
  rw [List.take_add_one, List.take_set_of_le (Nat.le_refl _), List.getElem?_set_self h]
  rfl

theorem documentedAppend_documented : Documented documentedAppend where
  success := by
    intro a fd events r h hok
    have hlen := h.length_fds
    have hle := h.len_le
    have hpos := h.capacity_pos
    unfold documentedAppend at hok ⊢
    by_cases hlt : a.len < a.capacity
    · rw [if_pos hlt]
      refine ⟨⟨hlt, ?_, hpos⟩, take_set_self (by omega) _⟩
      exact (List.length_set ..).trans hlen
    · -- The old entries are the whole old block.
      have hgrown : ∀ fresh : ℕ → Pollfd,
          ((a.fds ++ (List.range a.capacity).map fresh).set a.len ⟨fd, events, 0⟩).take (a.len + 1) =
            a.fds.take a.len ++ [⟨fd, events, 0⟩] := by
        intro fresh
        rw [take_set_self (by rw [List.length_append, List.length_map, List.length_range]; omega),
          List.take_append_of_le_length (by omega)]
      have hsize : ∀ fresh : ℕ → Pollfd,
          ((a.fds ++ (List.range a.capacity).map fresh).set a.len ⟨fd, events, 0⟩).length =
            2 * a.capacity := by
        intro fresh
        rw [List.length_set, List.length_append, List.length_map, List.length_range]
        omega
      rw [if_neg hlt] at hok ⊢
      cases r with
      | failed => cases hok
      | inPlace fresh => exact ⟨⟨by dsimp only; omega, hsize fresh, by dsimp only; omega⟩, hgrown fresh⟩
      | moved fresh => exact ⟨⟨by dsimp only; omega, hsize fresh, by dsimp only; omega⟩, hgrown fresh⟩
  failure := by
    intro a fd events r hne
    unfold documentedAppend at hne ⊢
    split at hne
    · exact absurd rfl hne
    · rename_i hlt
      rw [if_neg hlt]
      cases r with
      | failed => rfl
      | inPlace fresh => exact absurd rfl hne
      | moved fresh => exact absurd rfl hne

/-- As long as the block is not moved, the append of the source has its documented effect. -/
theorem pollfdArrayAppend_eq_documented {a : PollfdArray} (h : SoundSizes a) (hwf : a.Wf) (fd : Fd)
    (events : Events) {r : Realloc} (hstay : ∀ fresh, r = .moved fresh → a.len < a.capacity) :
    pollfdArrayAppend a fd events r = documentedAppend a fd events r := by
  have hsucc := h.u32_succ
  have hlen := hwf.length_fds
  have hle := hwf.len_le
  by_cases hlt : a.len < a.capacity
  · have hgrow : growForAppend a r = some (a, true) := if_neg (by rw [hsucc]; omega)
    have hdoc : documentedAppend a fd events r =
        ({ a with fds := a.fds.set a.len ⟨fd, events, 0⟩, len := a.len + 1 }, 0) := if_pos hlt
    rw [hdoc, pollfdArrayAppend, hgrow]
    dsimp only
    rw [if_pos rfl, hsucc]
  · have hgrow : u32 (a.len + 1) > a.capacity := by
      rw [hsucc]
      omega
    have hdouble := u32_of_lt (h.doubling_lt hgrow)
    have hadd : 2 * a.capacity - a.fds.length = a.capacity := by omega
    have htake : a.fds.take (2 * a.capacity) = a.fds := List.take_of_length_le (by omega)
    unfold pollfdArrayAppend documentedAppend growForAppend
    rw [if_neg hlt, if_pos hgrow, hdouble]
    cases r with
    | failed => rfl
    | inPlace fresh =>
      simp only [resize, htake, hadd, Option.map_some, if_true, hsucc]
    | moved fresh => exact absurd (hstay fresh rfl) hlt

/-- A deletion removes the entry at its index by moving the last entry to its place. -/
theorem entries_delete {a : PollfdArray} (h : a.Wf) {i : ℕ} (hi : i < a.len) (hlen : a.len < 2 ^ 32)
    (r : Realloc) :
    (pollfdArrayDelete a i r).1.Wf ∧
      (pollfdArrayDelete a i r).1.entries = swapRemove a.entries i := by
  have hle := h.len_le
  have hfds := h.length_fds
  have hu32 : u32 (a.len + 2 ^ 32 - 1) = a.len - 1 := by
    unfold u32
    omega
  have hused : a.len - 1 < a.fds.length := by omega
  have hset := take_set_last hused hi
  have hlast : a.fds.getD (a.len - 1) ⟨0, 0, 0⟩ = a.fds[a.len - 1] := by
    rw [List.getD_eq_getElem?_getD, List.getElem?_eq_getElem hused, Option.getD_some]
  unfold pollfdArrayDelete
  rw [if_neg (by omega), hu32, hlast]
  dsimp only
  have hkept : PollfdArray.Wf { a with fds := a.fds.set i a.fds[a.len - 1], len := a.len - 1 } :=
    ⟨by dsimp only; omega, (List.length_set ..).trans hfds, h.capacity_pos⟩
  split
  · rename_i hshrink
    obtain ⟨hhalf, hmin⟩ : a.len - 1 ≤ a.capacity / 2 ∧ a.capacity / 2 ≥ 5 := hshrink
    -- A successful shrink keeps every entry, because the entries fill at most the half that stays.
    have hcut : ∀ fresh : ℕ → Pollfd, ∀ fds : List Pollfd, fds.length = a.capacity →
        (fds.take (a.capacity / 2) ++ (List.range (a.capacity / 2 - fds.length)).map fresh).length =
          a.capacity / 2 ∧
        (fds.take (a.capacity / 2) ++
          (List.range (a.capacity / 2 - fds.length)).map fresh).take (a.len - 1) =
          fds.take (a.len - 1) := by
      intro fresh fds hl
      have hzero : a.capacity / 2 - fds.length = 0 := by omega
      rw [hzero, List.range_zero, List.map_nil, List.append_nil, List.length_take, List.take_take]
      exact ⟨by omega, by rw [Nat.min_eq_left hhalf]⟩
    have hlen' : (a.fds.set i a.fds[a.len - 1]).length = a.capacity :=
      (List.length_set ..).trans hfds
    cases r with
    | failed => exact ⟨hkept, hset⟩
    | inPlace fresh =>
      obtain ⟨hl, ht⟩ := hcut fresh _ hlen'
      exact ⟨⟨hhalf, hl, by dsimp only [resize]; omega⟩, ht.trans hset⟩
    | moved fresh =>
      obtain ⟨hl, ht⟩ := hcut fresh _ hlen'
      exact ⟨⟨hhalf, hl, by dsimp only [resize]; omega⟩, ht.trans hset⟩
  · exact ⟨hkept, hset⟩

/-! ## The arithmetic of every run -/

theorem ArrayRun.wf {a : PollfdArray} {ok : Bool} (h : ArrayRun a ok) : a.Wf := by
  induction h with
  | init heap h =>
    unfold pollfdArrayInit at h
    split at h
    · cases h
      exact ⟨by decide, by decide, by decide⟩
    · cases h
  | append h fd events r bound ih => exact h.sound.1.wf_append ih fd events r
  | @delete a ok h i r ih =>
    by_cases hi : i < a.len
    · have hbound := h.sound.1.bound
      exact (entries_delete ih hi (by omega) r).1
    · rwa [pollfdArrayDelete_of_ge (not_lt.1 hi)]

/-- An append that succeeds, and does not move the block to make room, writes its entry to the cell at `len`. -/
theorem SoundSizes.cell_append {a : PollfdArray} (h : SoundSizes a) (hwf : a.Wf) {fd : Fd} {events : Events}
    {r : Realloc} (hok : (pollfdArrayAppend a fd events r).2 = 0)
    (hstay : ∀ fresh, r = .moved fresh → a.len < a.capacity) :
    (pollfdArrayAppend a fd events r).1.fds[a.len]? = some ⟨fd, events, 0⟩ := by
  rw [pollfdArrayAppend_eq_documented h hwf fd events hstay] at hok ⊢
  obtain ⟨hwf', hentries⟩ := documentedAppend_documented.success hwf hok
  have hlen : (documentedAppend a fd events r).1.len = a.len + 1 := by
    rw [← hwf'.length_entries, hentries, List.length_append, hwf.length_entries]
    rfl
  have hcell : (documentedAppend a fd events r).1.entries[a.len]? = some ⟨fd, events, 0⟩ := by
    rw [hentries, List.getElem?_append_right hwf.length_entries.le, hwf.length_entries, Nat.sub_self]
    rfl
  rwa [PollfdArray.entries, hlen, List.getElem?_take_of_lt (Nat.lt_succ_self _)] at hcell

/-- The arithmetic of the poll array is sound in every run.  An append that succeeds writes at `len`, which is below
the capacity that the array has then. -/
theorem arrayRun_arithmetic {a : PollfdArray} {ok : Bool} (h : ArrayRun a ok) :
    (∃ k ≤ 29, a.capacity = 5 * 2 ^ k) ∧ a.len ≤ a.capacity ∧
    (u32 (a.len + 1) > a.capacity → 2 * a.capacity < 2 ^ 32) ∧
    (∀ r b live, growForAppend a r = some (b, live) → a.len < b.capacity) ∧
    (∀ fd events r, (pollfdArrayAppend a fd events r).2 = 0 →
      a.len < (pollfdArrayAppend a fd events r).1.capacity ∧
        ((∀ fresh, r = .moved fresh → a.len < a.capacity) →
          (pollfdArrayAppend a fd events r).1.fds[a.len]? = some ⟨fd, events, 0⟩)) ∧
    (∀ i r, (pollfdArrayDelete a i r).1.len ≤ (pollfdArrayDelete a i r).1.capacity) ∧
    (∀ fd events r, (pollfdArrayAppend a fd events r).2 = -1 →
      (pollfdArrayAppend a fd events r).1.len = a.len ∧
        (pollfdArrayAppend a fd events r).1.capacity = a.capacity) ∧
    (∀ i r, (pollfdArrayDelete a i r).2 = -1 →
      (pollfdArrayDelete a i r).1.len = a.len ∧
        (pollfdArrayDelete a i r).1.capacity = a.capacity) ∧
    (ok = true → a.capacity = 5 ∨ a.capacity < 2 * a.len) := by
  obtain ⟨hsizes, htight⟩ := h.sound
  refine ⟨hsizes.capacity_eq, hsizes.len_le, hsizes.doubling_lt,
    fun r b live hg => (hsizes.grown hg).2.1, ?_, fun i r => (hsizes.delete i r).len_le, ?_, ?_, htight⟩
  · intro fd events r hok
    refine ⟨?_, hsizes.cell_append h.wf hok⟩
    rcases hsizes.append_cases fd events r with hf | ⟨b, live, hg, -, -, hcap⟩
    · rw [hf] at hok
      cases hok
    · rw [hcap]
      exact (hsizes.grown hg).2.1
  · intro fd events r hr
    rcases hsizes.append_cases fd events r with hf | ⟨b, live, -, h0, -⟩
    · rw [hf]
      exact ⟨rfl, rfl⟩
    · rw [h0] at hr
      cases hr
  · intro i r hr
    rcases hsizes.delete_cases i r with ⟨hf, -⟩ | ⟨-, h0, -⟩
    · rw [hf]
      exact ⟨rfl, rfl⟩
    · rw [h0] at hr
      cases hr

/-- An array that is filled, doubled for a sixth entry, and halved again when that one goes; then there is no memory
for the next append. -/
theorem arrayRun_arithmetic_resized : ∃ a b c : PollfdArray,
    ArrayRun a true ∧ (a.len, a.capacity) = (6, 10) ∧ a.fds[5]? = some ⟨8, pollin, 0⟩ ∧
    ArrayRun b true ∧ (b.len, b.capacity) = (5, 5) ∧
    c = (pollfdArrayAppend b 9 pollin .failed).1 ∧ (pollfdArrayAppend b 9 pollin .failed).2 = -1 ∧
    ArrayRun c true ∧ c.len = b.len ∧ c.capacity = b.capacity ∧ (c.capacity = 5 ∨ c.capacity < 2 * c.len) := by
  have full : ArrayRun _ true := ((((ArrayRun.init .steady rfl).append 3 pollin .failed (by decide)).append
    4 pollin .failed (by decide)).append 5 pollin .failed (by decide)).append 6 pollin .failed (by decide)
  have full := full.append 7 pollin .failed (by decide)
  have grown := full.append 8 pollin (.inPlace fun _ => ⟨0, 0, 0⟩) (by decide)
  have shrunk : ArrayRun _ true := grown.delete 5 (.inPlace fun _ => ⟨0, 0, 0⟩)
  have refused := shrunk.append 9 pollin .failed (by decide)
  obtain ⟨-, -, -, -, hwrite, -, -, -, -⟩ := arrayRun_arithmetic full
  obtain ⟨-, -, -, -, -, -, hfail, -, -⟩ := arrayRun_arithmetic shrunk
  obtain ⟨-, -, -, -, -, -, -, -, htight⟩ := arrayRun_arithmetic refused
  have hcell := (hwrite 8 pollin (.inPlace fun _ => ⟨0, 0, 0⟩) rfl).2 fun _ h => by cases h
  obtain ⟨hlen, hcap⟩ := hfail 9 pollin .failed rfl
  exact ⟨_, _, _, grown, rfl, hcell, shrunk, rfl, rfl, rfl, refused, hlen, hcap, htight rfl⟩

end ChatRooms
