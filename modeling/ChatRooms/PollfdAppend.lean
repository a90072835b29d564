import ChatRooms.PollfdArray

/-!
# Appending to a full poll array

`pollfd_array_append` on any array, full or not, for everything `reallocarray` may do.  The entry is
written through the copy of `fds` that was made before the resize, so it is in the array afterwards
exactly when that copy still points to the array's block: `append_live_iff`.
-/

namespace ChatRooms

/-- What an append is to do: with 0 it puts the entry behind the others, with -1 it changes nothing. -/
def Appends (a : PollfdArray) (entry : Pollfd) (result : PollfdArray × ℤ) : Prop :=
  (result.2 = 0 → result.1.entries = a.entries ++ [entry] ∧ result.1.len = a.len + 1) ∧
    (result.2 = -1 → result.1 = a)

/-- The array has a free cell; or its length can still be counted and `reallocarray` fails, or the
capacity can be doubled and the block is not moved.  A moved block holds the entry only when its first
new cell happens to. -/
def EntryStays (a : PollfdArray) (entry : Pollfd) (r : Realloc) : Prop :=
  a.len < a.capacity ∨ a.capacity + 1 < 2 ^ 32 ∧
    match r with
    | .failed => True
    | .inPlace _ => 0 < a.capacity ∧ a.capacity < 2 ^ 31
    | .moved fresh => (0 < a.capacity ∧ a.capacity < 2 ^ 31) ∧ fresh 0 = entry

section Full

variable {a : PollfdArray}

/-- Where the capacity can be doubled, the block of a full array is followed by the added part. -/
theorem resize_full (hfds : a.fds.length = a.capacity) (hcap : 0 < a.capacity ∧ a.capacity < 2 ^ 31)
    (fresh : ℕ → Pollfd) :
    a.fds.take (u32 (2 * a.capacity)) ++ (List.range (u32 (2 * a.capacity) - a.fds.length)).map fresh =
      a.fds ++ (List.range a.capacity).map fresh := by
  have hdouble : u32 (2 * a.capacity) = 2 * a.capacity := u32_of_lt (by omega)
  rw [hdouble, List.take_of_length_le (by omega), hfds, two_mul, Nat.add_sub_cancel]

/-- Where it cannot, the new block has no room for another entry. -/
theorem length_resize_lt (hfds : a.fds.length = a.capacity) (hcount : a.capacity + 1 < 2 ^ 32)
    (hcap : ¬ (0 < a.capacity ∧ a.capacity < 2 ^ 31)) (fresh : ℕ → Pollfd) :
    (a.fds.take (u32 (2 * a.capacity)) ++
      (List.range (u32 (2 * a.capacity) - a.fds.length)).map fresh).length < a.capacity + 1 := by
  have hsmall : u32 (2 * a.capacity) < a.capacity + 1 := by
    unfold u32
    omega
  simp only [List.length_append, List.length_take, List.length_map, List.length_range]
  omega

/-- A block that is too small does not hold the old entries and another one. -/
theorem take_ne_append (hfds : a.fds.length = a.capacity) (hfull : a.len = a.capacity) {fds : List Pollfd}
    (hlt : fds.length < a.capacity + 1) (n : ℕ) (entry : Pollfd) :
    fds.take n ≠ a.entries ++ [entry] := by
  intro h
  have hlen := congrArg List.length h
  rw [PollfdArray.entries, List.length_append, List.length_take, List.length_take,
    List.length_singleton] at hlen
  omega

/-- With 0 the append is to put the entry behind the others. -/
theorem appends_zero {entry : Pollfd} {b : PollfdArray} :
    Appends a entry (b, 0) ↔ b.entries = a.entries ++ [entry] ∧ b.len = a.len + 1 := by
  simp [Appends]

/-- With -1 it is to change nothing. -/
theorem appends_failed {entry : Pollfd} : Appends a entry (a, -1) := by
  simp [Appends]

/-- Without a resize the entry takes the first free cell. -/
theorem appends_of_free (hfds : a.fds.length = a.capacity) (hcap : a.capacity < 2 ^ 32)
    (hfree : a.len < a.capacity) (fd : Fd) (events : Events) (r : Realloc) :
    Appends a ⟨fd, events, 0⟩ (pollfdArrayAppend a fd events r) := by
  have hsucc : u32 (a.len + 1) = a.len + 1 := u32_of_lt (by omega)
  have hgrow : growForAppend a r = some (a, true) := if_neg (by omega)
  rw [pollfdArrayAppend, hgrow]
  apply appends_zero.2
  refine ⟨?_, hsucc⟩
  show (a.fds.set a.len ⟨fd, events, 0⟩).take (u32 (a.len + 1)) = _
  rw [hsucc]
  exact take_set_self (by omega) _

/-- When the length itself overflows, the resize is not even tried. -/
theorem not_appends_of_overflow (hfull : a.len = a.capacity) (hcap : a.capacity < 2 ^ 32)
    (hcount : ¬ a.capacity + 1 < 2 ^ 32) (fd : Fd) (events : Events) (r : Realloc) :
    ¬ Appends a ⟨fd, events, 0⟩ (pollfdArrayAppend a fd events r) := by
  intro h
  have hsucc : u32 (a.len + 1) = 0 := by
    unfold u32
    omega
  have hgrow : growForAppend a r = some (a, true) := if_neg (by omega)
  rw [pollfdArrayAppend, hgrow] at h
  have hlen : u32 (a.len + 1) = a.len + 1 := (h.1 rfl).2
  omega

section Resize

variable (hfds : a.fds.length = a.capacity) (hfull : a.len = a.capacity) (hcount : a.capacity + 1 < 2 ^ 32)

include hfds hfull hcount

/-- Grown in place, the array has the entry in the first cell of the added part. -/
theorem appends_inPlace_iff (fd : Fd) (events : Events) (fresh : ℕ → Pollfd) :
    Appends a ⟨fd, events, 0⟩ (pollfdArrayAppend a fd events (.inPlace fresh)) ↔
      0 < a.capacity ∧ a.capacity < 2 ^ 31 := by
  have hsucc : u32 (a.len + 1) = a.len + 1 := u32_of_lt (by omega)
  have hgrow : a.len + 1 > a.capacity := by omega
  have hentries : a.entries = a.fds := List.take_of_length_le (by omega)
  simp only [pollfdArrayAppend, growForAppend, hsucc, if_pos hgrow, resize, Option.map_some, if_true]
  rw [appends_zero]
  dsimp only [PollfdArray.entries]
  by_cases hdouble : 0 < a.capacity ∧ a.capacity < 2 ^ 31
  · refine iff_of_true ⟨?_, rfl⟩ hdouble
    rw [resize_full hfds hdouble, take_set_self (by simp; omega), List.take_append_of_le_length (by omega)]
  · refine iff_of_false (fun h => ?_) hdouble
    apply take_ne_append hfds hfull _ _ _ h.1
    rw [List.length_set]
    exact length_resize_lt hfds hcount hdouble fresh

/-- Moved, the array has what the first cell of the added part happens to hold. -/
theorem appends_moved_iff (fd : Fd) (events : Events) (fresh : ℕ → Pollfd) :
    Appends a ⟨fd, events, 0⟩ (pollfdArrayAppend a fd events (.moved fresh)) ↔
      (0 < a.capacity ∧ a.capacity < 2 ^ 31) ∧ fresh 0 = ⟨fd, events, 0⟩ := by
  have hsucc : u32 (a.len + 1) = a.len + 1 := u32_of_lt (by omega)
  have hgrow : a.len + 1 > a.capacity := by omega
  have hentries : a.entries = a.fds := List.take_of_length_le (by omega)
  simp only [pollfdArrayAppend, growForAppend, hsucc, if_pos hgrow, resize, Option.map_some,
    Bool.false_eq_true, if_false]
  rw [appends_zero]
  by_cases hdouble : 0 < a.capacity ∧ a.capacity < 2 ^ 31
  · have hcell : (a.fds ++ (List.range a.capacity).map fresh).take (a.len + 1) = a.entries ++ [fresh 0] := by
      obtain ⟨n, hn⟩ := Nat.exists_eq_succ_of_ne_zero hdouble.1.ne'
      rw [hentries, List.take_append, List.take_of_length_le (by omega), hn, List.range_succ_eq_map,
        List.map_cons, show a.len + 1 - a.fds.length = 1 by omega]
      rfl
    dsimp only [PollfdArray.entries] at hcell ⊢
    rw [resize_full hfds hdouble, hcell, and_iff_right hdouble, and_iff_left rfl, List.append_cancel_left_eq,
      List.singleton_inj]
  · refine iff_of_false (fun h => ?_) fun h => hdouble h.1
    exact take_ne_append hfds hfull (length_resize_lt hfds hcount hdouble fresh) _ _ h.1

end Resize

end Full

/-- On every array whose length is at most its capacity, and for everything `reallocarray` may do, the
append does what it is to do exactly when the copy of `fds` it writes through stays the array's. -/
theorem append_live_iff {a : PollfdArray} (hlen : a.len ≤ a.capacity) (hfds : a.fds.length = a.capacity)
    (hcap : a.capacity < 2 ^ 32) (fd : Fd) (events : Events) (r : Realloc) :
    Appends a ⟨fd, events, 0⟩ (pollfdArrayAppend a fd events r) ↔ EntryStays a ⟨fd, events, 0⟩ r := by
  unfold EntryStays
  by_cases hfree : a.len < a.capacity
  · exact iff_of_true (appends_of_free hfds hcap hfree fd events r) (.inl hfree)
  rw [or_iff_right hfree]
  have hfull : a.len = a.capacity := by omega
  by_cases hcount : a.capacity + 1 < 2 ^ 32
  · rw [and_iff_right hcount]
    cases r with
    | failed =>
      have hgrow : u32 (a.len + 1) > a.capacity := by
        rw [u32_of_lt (by omega)]
        omega
      simp only [pollfdArrayAppend, growForAppend, if_pos hgrow, resize, Option.map_none]
      exact iff_of_true appends_failed trivial
    | inPlace fresh => exact appends_inPlace_iff hfds hfull hcount fd events fresh
    | moved fresh => exact appends_moved_iff hfds hfull hcount fd events fresh
  · exact iff_of_false (not_appends_of_overflow hfull hcap hcount fd events r) fun h => hcount h.1

/-- A full array of five entries. -/
def fullArray : PollfdArray := ⟨(List.range 5).map fun i => ⟨3 + i, pollin, 0⟩, 5, 5⟩

/-- A full array is grown in place. -/
theorem append_live_iff_inPlace :
    Appends fullArray ⟨8, pollin, 0⟩
      (pollfdArrayAppend fullArray 8 pollin (.inPlace fun _ => ⟨0, 0, 0⟩)) :=
  (append_live_iff (a := fullArray) (by decide) rfl (by decide) 8 pollin _).2
    (.inr ⟨by decide, by decide, by decide⟩)

/-- A full array is moved: the append returns 0, and the new connection is not in the array. -/
theorem append_moved_loses :
    (pollfdArrayAppend fullArray 8 pollin (.moved fun _ => ⟨0, 0, 0⟩)).2 = 0 ∧
      (pollfdArrayAppend fullArray 8 pollin (.moved fun _ => ⟨0, 0, 0⟩)).1.entries =
        fullArray.entries ++ [⟨0, 0, 0⟩] ∧
      ¬ Appends fullArray ⟨8, pollin, 0⟩
        (pollfdArrayAppend fullArray 8 pollin (.moved fun _ => ⟨0, 0, 0⟩)) := by
  have hentries : (pollfdArrayAppend fullArray 8 pollin (.moved fun _ => ⟨0, 0, 0⟩)).1.entries =
      fullArray.entries ++ [⟨0, 0, 0⟩] := by decide
  refine ⟨by decide, hentries, fun h => ?_⟩
  have happ := (h.1 (by decide)).1
  rw [hentries] at happ
  exact absurd (List.singleton_inj.1 (List.append_cancel_left happ)) (by decide)

end ChatRooms
