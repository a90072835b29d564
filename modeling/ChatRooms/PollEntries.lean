import ChatRooms.PollfdArray

/-!
# Polling the entries of a poll array

What the main loops of the server and of the client do with their poll array: `poll` reports bits for
its entries, and the inner loop reads them one after another by an index of type `uint32_t`.
-/

namespace ChatRooms

/-- The index after `i++`. -/
def nextIndex (i : ℕ) : ℕ := u32 (i + 1)

/-- The index after `i--` and `i++`. -/
def repeatIndex (i : ℕ) : ℕ := u32 (u32 (i + 2 ^ 32 - 1) + 1)

namespace PollfdArray

/-- Reads the entry at index `i` of the block. -/
def read (a : PollfdArray) (i : ℕ) : Checked Pollfd :=
  match a.fds[i]? with
  | some pfd => .ok pfd
  | none => .error (.read i a.fds.length)

/-- `poll` stores the reported bits in the entries it was given. -/
def report (a : PollfdArray) (revents : ℕ → Events) : PollfdArray :=
  { a with fds := a.fds.mapIdx fun i pfd => if i < a.len then { pfd with revents := revents i } else pfd }

/-- The descriptors of the entries. -/
def descriptors (a : PollfdArray) : List Fd := a.entries.map Pollfd.fd

/-- Reading a used cell gives the entry at its index. -/
theorem read_eq_ok {a : PollfdArray} {i : ℕ} {pfd : Pollfd} (hi : i < a.len) :
    a.read i = .ok pfd ↔ a.entries[i]? = some pfd := by
  unfold read entries
  rw [List.getElem?_take_of_lt hi]
  cases a.fds[i]? <;> simp

/-- The descriptor of an entry that is read. -/
theorem descriptors_of_read {a : PollfdArray} {i : ℕ} {pfd : Pollfd} (hi : i < a.len)
    (hread : a.read i = .ok pfd) : a.descriptors[i]? = some pfd.fd := by
  rw [descriptors, List.getElem?_map, (read_eq_ok hi).1 hread]
  rfl

theorem wf_report {a : PollfdArray} (h : a.Wf) (revents : ℕ → Events) : (a.report revents).Wf where
  len_le := h.len_le
  length_fds := List.length_mapIdx.trans h.length_fds
  capacity_pos := h.capacity_pos

/-- The entries after a poll carry the reported bits. -/
theorem entries_report (a : PollfdArray) (revents : ℕ → Events) :
    (a.report revents).entries = a.entries.mapIdx fun i pfd => { pfd with revents := revents i } := by
  apply List.ext_getElem
  · simp [entries, report]
  · intro i h1 h2
    have hi : i < a.len := by
      rw [List.length_mapIdx, entries, List.length_take] at h2
      omega
    simp [entries, report, hi]

/-- A poll changes no descriptor. -/
theorem descriptors_report (a : PollfdArray) (revents : ℕ → Events) :
    (a.report revents).descriptors = a.descriptors := by
  rw [descriptors, entries_report, descriptors]
  apply List.ext_getElem
  · simp
  · intro i h1 h2
    simp only [List.getElem_map, List.getElem_mapIdx]

end PollfdArray

end ChatRooms
