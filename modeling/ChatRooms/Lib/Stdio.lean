import ChatRooms.Lib.Cutter
import ChatRooms.Lib.Socket

/-!
# Lines from a descriptor

`fgets` on a descriptor with a buffer of its own: it hands out one line per call, reads the
descriptor only when the buffer holds no line, and takes what one `read` returns.  A line that does
not fit the caller's array is handed out in pieces.

* `lines` cuts a sequence of characters at its newlines;
* `fgets` is one call;
* `fgets_line`: what is handed out is the first line or its first `limit` characters, however the
  characters are divided between the buffer and the descriptor and whatever a `read` returns.
-/

namespace ChatRooms

/-- Lines, their newlines included. -/
def lines : Cutter UInt8 where
  head b := if 10 ∈ b then some (b.idxOf 10 + 1) else none
  bounds := by
    intro b n h
    split at h
    · rename_i hmem
      have hlt := List.idxOf_lt_length_of_mem hmem
      rw [Option.some.injEq] at h
      omega
    · cases h
  stable := by
    intro b n more h
    split at h
    · rename_i hmem
      rw [if_pos (List.mem_append_left _ hmem), List.idxOf_append_of_mem hmem]
      exact h
    · cases h

/-- What `fgets` takes from its buffer: the first line, or `limit` characters when they hold no
newline. -/
def lineLength (limit : ℕ) (b : Bytes) : Option ℕ :=
  if 10 ∈ b.take limit then some (b.idxOf 10 + 1) else if limit ≤ b.length then some limit else none

/-- The bytes of an input: those in the buffer of the C library, and those still to be read. -/
structure Stdin where
  buffer : Bytes
  descriptor : Stream

/-- The characters that have not been handed out. -/
def Stdin.unread (s : Stdin) : Bytes := s.buffer ++ s.descriptor.pending

/-- The size of the buffer. -/
def stdioBlock : ℕ := 4096

/-- What a call of `fgets` answers: a line, `NULL`, or nothing yet. -/
inductive LineAnswer where
  | line (b : Bytes)
  | null
  | waits
deriving DecidableEq, Repr

/-- The loop of `fgets`; `fuel` bounds the number of reads by the number of bytes to be read. -/
def fgetsLoop (pick : ℕ → ℕ) (limit : ℕ) : ℕ → ℕ → Stdin → LineAnswer × Stdin
  | 0, _, s => (.waits, s)
  | fuel + 1, call, s =>
    match lineLength limit s.buffer with
    | some n => (.line (s.buffer.take n), { s with buffer := s.buffer.drop n })
    | none =>
      match s.descriptor.recv stdioBlock (pick call) with
      | (.got b, descriptor) =>
        fgetsLoop pick limit fuel (call + 1) { buffer := s.buffer ++ b, descriptor }
      | (.closed, descriptor) =>
        (if s.buffer = [] then .null else .line s.buffer, { buffer := [], descriptor })
      | (.reset, descriptor) => (.null, { buffer := [], descriptor })
      | (.failed, descriptor) => (.null, { buffer := [], descriptor })
      | (.waits, _) => (.waits, s)

/-- `fgets` into an array of `limit + 1` characters. -/
def fgets (pick : ℕ → ℕ) (limit : ℕ) (s : Stdin) : LineAnswer × Stdin :=
  fgetsLoop pick limit (s.descriptor.pending.length + 1) 0 s

/-- The complete lines end with a newline, and behind them there is none. -/
theorem exists_rest_lines (l : Bytes) :
    ∃ rest, (lines.units l).flatten ++ rest = l ∧ 10 ∉ rest ∧ ∀ c ∈ (lines.units l).flatten.getLast?, c = 10 := by
  cases h : lines.head l with
  | none =>
    rw [lines.units_of_none h]
    refine ⟨l, rfl, fun hmem => ?_, fun c hc => by cases hc⟩
    exact absurd (h.symm.trans (if_pos hmem)) (Option.some_ne_none _).symm
  | some n =>
    have hbounds := lines.bounds h
    have hmem : 10 ∈ l := by
      by_contra hno
      exact absurd (h.symm.trans (if_neg hno)) (Option.some_ne_none n)
    have hn : n = l.idxOf 10 + 1 := Option.some.inj (h.symm.trans (if_pos hmem))
    have hlast : (l.take n).getLast? = some 10 := by
      have hlt := List.idxOf_lt_length_of_mem hmem
      rw [hn, List.take_add_one, List.getElem?_eq_getElem hlt, List.getElem_idxOf]
      exact List.getLast?_concat
    obtain ⟨rest, hrest, hno, hend⟩ := exists_rest_lines (l.drop n)
    refine ⟨rest, ?_, hno, ?_⟩
    · rw [lines.units_of_some h, List.flatten_cons, List.append_assoc, hrest, List.take_append_drop]
    · rw [lines.units_of_some h, List.flatten_cons, List.getLast?_append, hlast]
      intro c hc
      cases hflat : (lines.units (l.drop n)).flatten.getLast? with
      | none =>
        rw [hflat] at hc
        exact (Option.some.inj hc).symm
      | some d =>
        rw [hflat] at hc hend
        rw [← Option.some.inj hc]
        exact hend d rfl
termination_by l.length
decreasing_by
  rw [List.length_drop]
  omega

/-- The complete lines end before a part exactly when it has no newline. -/
theorem flatten_lines_isPrefix_iff (l tail : Bytes) :
    (lines.units (l ++ tail)).flatten <+: l ↔ 10 ∉ tail := by
  obtain ⟨rest, hrest, hno, hend⟩ := exists_rest_lines (l ++ tail)
  generalize (lines.units (l ++ tail)).flatten = complete at hrest hend
  rcases List.append_eq_append_iff.1 hrest with ⟨more, rfl, rfl⟩ | ⟨more, rfl, rfl⟩
  · exact iff_of_true (List.prefix_append _ _) fun hmem => hno (List.mem_append_right _ hmem)
  · cases more using List.reverseRecOn with
    | nil =>
      rw [List.append_nil]
      exact iff_of_true List.prefix_rfl hno
    | append_singleton more c =>
      -- The last line ends inside the second part.
      have hc : c = 10 := hend c (by rw [← List.append_assoc, List.getLast?_concat]; rfl)
      refine iff_of_false (fun hprefix => ?_) (fun hmem => hmem ?_)
      · have hlen := hprefix.length_le
        rw [List.length_append, List.length_append, List.length_singleton] at hlen
        omega
      · rw [hc]
        simp

/-! ## What a call hands out -/

section Lines

variable {limit : ℕ}

theorem lineLength_bounds (hlimit : 0 < limit) {b : Bytes} {n : ℕ} (h : lineLength limit b = some n) :
    0 < n ∧ n ≤ b.length ∧ n ≤ limit := by
  unfold lineLength at h
  split at h
  · rename_i hmem
    rw [Option.some.injEq] at h
    have hlt := List.idxOf_lt_length_of_mem hmem
    have hidx : (b.take limit).idxOf 10 = b.idxOf 10 := by
      rw [← List.take_append_drop limit b, List.idxOf_append_of_mem hmem, List.take_append_drop]
    rw [hidx, List.length_take] at hlt
    omega
  · split at h
    · rw [Option.some.injEq] at h
      omega
    · cases h

theorem notMem_of_lineLength_eq_none {b : Bytes} (h : lineLength limit b = none) : 10 ∉ b := by
  unfold lineLength at h
  split at h
  · cases h
  · rename_i hno
    split at h
    · cases h
    · rename_i hfits
      rwa [List.take_of_length_le (not_le.1 hfits).le] at hno

/-- What arrives behind a line does not change it. -/
theorem lineLength_append {b : Bytes} {n : ℕ} (h : lineLength limit b = some n) (more : Bytes) :
    lineLength limit (b ++ more) = some n := by
  unfold lineLength at h ⊢
  split at h
  · rename_i hmem
    have hmem' : 10 ∈ (b ++ more).take limit := by
      rw [List.take_append]
      exact List.mem_append_left _ hmem
    rw [if_pos hmem', List.idxOf_append_of_mem (List.mem_of_mem_take hmem)]
    exact h
  · rename_i hno
    split at h
    · rename_i hfull
      rw [List.take_append_of_le_length hfull, if_neg hno, if_pos]
      · exact h
      · rw [List.length_append]
        exact hfull.trans (Nat.le_add_right _ _)
    · cases h

/-- The first line is handed out, or as much of it as fits. -/
theorem lineLength_line {body : Bytes} (hbody : 10 ∉ body) (more : Bytes) :
    lineLength limit (body ++ 10 :: more) = some (min limit (body.length + 1)) := by
  have hidx : (body ++ 10 :: more).idxOf 10 = body.length := by
    rw [List.idxOf_append_of_notMem hbody, List.idxOf_cons_self, Nat.add_zero]
  by_cases hfits : body.length < limit
  · have hmem : 10 ∈ (body ++ 10 :: more).take limit := by
      obtain ⟨k, hk⟩ : ∃ k, limit = body.length + (k + 1) := ⟨limit - body.length - 1, by omega⟩
      rw [hk, List.take_length_add_append, List.take_succ_cons]
      exact List.mem_append_right _ List.mem_cons_self
    rw [lineLength, if_pos hmem, hidx, Nat.min_eq_right hfits]
  · have hno : 10 ∉ (body ++ 10 :: more).take limit := by
      rw [List.take_append_of_le_length (not_lt.1 hfits)]
      exact fun hmem => hbody (List.mem_of_mem_take hmem)
    have hlen : limit ≤ (body ++ 10 :: more).length := by
      rw [List.length_append]
      omega
    rw [lineLength, if_neg hno, if_pos hlen, Nat.min_eq_left (by omega)]

/-- The loop hands out the line at the front of what has not been handed out; the fuel suffices for all
reads. -/
theorem fgetsLoop_line (hlimit : 0 < limit) (pick : ℕ → ℕ) {fuel call : ℕ} {s : Stdin} {n : ℕ}
    (h : lineLength limit s.unread = some n) (hfuel : s.descriptor.pending.length < fuel) :
    ∃ s', fgetsLoop pick limit fuel call s = (.line (s.unread.take n), s') ∧ s'.unread = s.unread.drop n := by
  induction fuel generalizing call s with
  | zero => omega
  | succ fuel ih =>
    obtain ⟨buffer, descriptor⟩ := s
    cases hbuffer : lineLength limit buffer with
    | some m =>
      have hm := (lineLength_bounds hlimit hbuffer).2.1
      obtain rfl : m = n := by
        have hunread := lineLength_append hbuffer descriptor.pending
        exact Option.some.inj (hunread.symm.trans h)
      refine ⟨⟨buffer.drop m, descriptor⟩, ?_, ?_⟩
      · rw [fgetsLoop, hbuffer]
        dsimp only
        rw [Stdin.unread, List.take_append_of_le_length hm]
      · rw [Stdin.unread, Stdin.unread, List.drop_append_of_le_length hm]
    | none =>
      -- The line is not in the buffer yet, so the descriptor has characters to read.
      have hne : descriptor.pending ≠ [] := by
        intro hnil
        rw [Stdin.unread, hnil, List.append_nil, hbuffer] at h
        cases h
      have havail : 0 < descriptor.pending.length := List.length_pos_of_ne_nil hne
      set size := chunk (pick call) stdioBlock descriptor.pending.length
      have hpos : 0 < size := chunk_pos _ (by decide) havail
      have hunread : (buffer ++ descriptor.pending.take size) ++ descriptor.pending.drop size =
          buffer ++ descriptor.pending := by
        rw [List.append_assoc, List.take_append_drop]
      rw [fgetsLoop, hbuffer]
      dsimp only
      rw [Stream.recv_of_ne_nil hne]
      dsimp only
      have hrest := @ih (call + 1) ⟨buffer ++ descriptor.pending.take size,
        { descriptor with pending := descriptor.pending.drop size }⟩
      simp only [Stdin.unread] at hrest ⊢
      rw [hunread] at hrest
      apply hrest h
      dsimp only at hfuel
      rw [List.length_drop]
      omega

/-- What is handed out and what is not are together what there was. -/
theorem fgetsLoop_conserves {pick : ℕ → ℕ} {fuel call : ℕ} {s s' : Stdin} {piece : Bytes}
    (h : fgetsLoop pick limit fuel call s = (.line piece, s')) : piece ++ s'.unread = s.unread := by
  induction fuel generalizing call s with
  | zero => cases h
  | succ fuel ih =>
    obtain ⟨buffer, descriptor⟩ := s
    rw [fgetsLoop] at h
    split at h
    · cases h
      rw [Stdin.unread, ← List.append_assoc, List.take_append_drop]
      rfl
    · by_cases hnil : descriptor.pending = []
      · -- The end of the input: the buffer is handed out as it is.
        obtain ⟨pending, ending⟩ := descriptor
        subst hnil
        cases ending with
        | «open» => cases h
        | closed =>
          dsimp only [Stream.recv] at h
          split at h
          · cases h
          · cases h
            simp [Stdin.unread]
        | reset => cases h
        | failed => cases h
      · dsimp only at h
        rw [Stream.recv_of_ne_nil hnil] at h
        have hrest := ih h
        simp only [Stdin.unread, List.append_assoc, List.take_append_drop] at hrest ⊢
        exact hrest

theorem fgets_line (hlimit : 0 < limit) (pick : ℕ → ℕ) {s : Stdin} {n : ℕ}
    (h : lineLength limit s.unread = some n) :
    ∃ s', fgets pick limit s = (.line (s.unread.take n), s') ∧ s'.unread = s.unread.drop n :=
  fgetsLoop_line hlimit pick h (Nat.lt_succ_self _)

theorem fgets_conserves {pick : ℕ → ℕ} {s s' : Stdin} {piece : Bytes}
    (h : fgets pick limit s = (.line piece, s')) : piece ++ s'.unread = s.unread :=
  fgetsLoop_conserves h

/-- A call at the beginning of a line, or of what is left of one. -/
theorem fgets_of_line (hlimit : 0 < limit) (pick : ℕ → ℕ) {body more : Bytes} (hbody : 10 ∉ body)
    {s : Stdin} (hs : s.unread = body ++ 10 :: more) :
    ∃ s', fgets pick limit s = (.line ((body ++ [10]).take limit), s') ∧
      s'.unread = (body ++ [10]).drop limit ++ more := by
  have hlength : lineLength limit s.unread = some (min limit (body.length + 1)) := by
    rw [hs]
    exact lineLength_line hbody more
  obtain ⟨s', hfgets, hunread⟩ := fgets_line hlimit pick hlength
  have hline : s.unread = (body ++ [10]) ++ more := by
    rw [hs, List.append_assoc, List.singleton_append]
  have hlen : (body ++ [10]).length = body.length + 1 := List.length_append
  refine ⟨s', ?_, ?_⟩
  · rw [hfgets, hline, ← hlen, List.take_append_of_le_length (Nat.min_le_right _ _), ← List.take_take,
      List.take_length]
  · rw [hunread, hline, ← hlen, List.drop_append_of_le_length (Nat.min_le_right _ _)]
    rcases le_total limit (body ++ [10]).length with hle | hge
    · rw [Nat.min_eq_left hle]
    · rw [Nat.min_eq_right hge, List.drop_length, List.drop_eq_nil_of_le hge]

end Lines

end ChatRooms
