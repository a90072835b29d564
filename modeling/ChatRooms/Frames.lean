import ChatRooms.Lib.Cutter
import ChatRooms.Net

/-!
# Frames in front of a receiver

The bytes of a connection are cut into frames by the lengths in front of them.  As long as the first
`recv` of each call takes the four bytes of the header when they are there, `recvall` hands over the
frames of the stream in this order, and sees the end of the stream only when no complete frame is
left.
-/

namespace ChatRooms

/-- Frames: the four bytes of the header and as many more as it announces. -/
def frames : Cutter UInt8 where
  head b := if 4 ≤ b.length ∧ announced b ≤ b.length then some (max 4 (announced b)) else none
  bounds := by
    intro b n h
    split at h
    · rename_i hle
      rw [Option.some.injEq] at h
      omega
    · cases h
  stable := by
    intro b n more h
    split at h
    · rename_i hle
      rw [announced_append hle.1, List.length_append, if_pos ⟨by omega, by omega⟩]
      exact h
    · cases h

theorem frames_head {b : Bytes} {n : ℕ} :
    frames.head b = some n ↔ 4 ≤ b.length ∧ announced b ≤ b.length ∧ n = max 4 (announced b) := by
  unfold frames
  dsimp only
  split
  · rename_i h
    rw [Option.some.injEq, eq_comm]
    exact ⟨fun hn => ⟨h.1, h.2, hn⟩, fun hn => hn.2.2⟩
  · rename_i h
    exact ⟨fun hn => (nomatch hn), fun hn => absurd ⟨hn.1, hn.2.1⟩ h⟩

theorem frames_head_eq_none {b : Bytes} :
    frames.head b = none ↔ b.length < 4 ∨ b.length < announced b := by
  unfold frames
  dsimp only
  split
  · rename_i h
    exact ⟨fun hn => (nomatch hn), fun hn => absurd hn (by omega)⟩
  · rename_i h
    exact ⟨fun _ => by omega, fun _ => rfl⟩

/-! ## What `recvall` takes -/

/-- When fewer than four bytes are left, a block that is handed over has fewer than four bytes too. -/
theorem recvall_short {env : RecvEnv} {s s' : Stream} (hlen : s.pending.length < 4) {buf : Bytes} {n : ℕ}
    (h : recvall env s = (.message buf n, s')) : buf.length < 4 := by
  have hfst := congrArg Prod.fst h
  dsimp only at hfst
  by_cases hnil : s.pending = []
  · rw [recvall_of_nil hnil] at hfst
    split at hfst
    · exact absurd hfst (StreamEnd.outcome_ne_message _ _ _)
    · cases hfst
  by_cases hserves : env.Serves (announced (env.header s))
  · rw [recvall_eq hnil hserves] at hfst
    split at hfst
    · cases hfst
      rw [List.length_take]
      omega
    · exact absurd hfst (StreamEnd.outcome_ne_message _ _ _)
  · rw [recvall_of_not_serves hnil hserves] at hfst
    cases hfst

/-- What `recvall` returns when the header arrived whole: it fails when there is no memory, and is
otherwise a function of the stream. -/
theorem recvall_failed_or {env : RecvEnv} {s : Stream} (hlen : 4 ≤ s.pending.length)
    (hwhole : env.WholeHeader) :
    ¬ env.Serves (announced s.pending) ∧ (recvall env s).1 = .failed ∨ recvall env s = s.outcome := by
  by_cases hserves : env.Serves (announced s.pending)
  · exact .inr (recvall_of_whole_header hlen hserves hwhole)
  · refine .inl ⟨hserves, recvall_of_not_serves (List.ne_nil_of_length_pos (by omega)) ?_⟩
    rwa [(RecvEnv.header_of_whole hlen hwhole).2, announced_take]

/-- A block with a type byte that `recvall` hands over is the frame in front of the stream. -/
theorem recvall_takes {env : RecvEnv} {s s' : Stream} (hwhole : env.WholeHeader) {buf : Bytes} {n : ℕ}
    (h : recvall env s = (.message buf n, s')) (htype : 5 ≤ buf.length) :
    frames.head s.pending = some buf.length ∧ buf = s.pending.take buf.length ∧
      s' = { s with pending := s.pending.drop buf.length } := by
  by_cases hlen : 4 ≤ s.pending.length
  · rcases recvall_failed_or hlen hwhole with ⟨-, hfail⟩ | hout
    · rw [h] at hfail
      cases hfail
    · rw [h] at hout
      unfold Stream.outcome at hout
      split at hout
      · cases hout
        rw [List.length_take] at htype
        omega
      · split at hout
        · rename_i hle
          cases hout
          have hbuf : (s.pending.take (announced s.pending)).length = announced s.pending := by
            rw [List.length_take]
            omega
          rw [hbuf]
          exact ⟨frames_head.2 ⟨hlen, hle, by omega⟩, rfl, rfl⟩
        · obtain ⟨pending, ending⟩ := s
          cases ending <;> cases hout
  · have := recvall_short (by omega) h
    omega

/-- `recvall` sees the end of the stream only behind the last complete frame. -/
theorem recvall_closed {env : RecvEnv} {s s' : Stream} (hwhole : env.WholeHeader)
    (h : recvall env s = (.closed, s')) : frames.head s.pending = none := by
  rw [frames_head_eq_none]
  by_cases hlen : 4 ≤ s.pending.length
  · rcases recvall_failed_or hlen hwhole with ⟨-, hfail⟩ | hout
    · rw [h] at hfail
      cases hfail
    · rw [h] at hout
      unfold Stream.outcome at hout
      split at hout
      · cases hout
      · split at hout
        · cases hout
        · omega
  · exact .inl (by omega)

/-- What `recvall` finds at the front of a stream whose bytes start with a whole header, if there are
any: it fails when there is no memory, ends as the stream does when no frame is complete, and
otherwise hands over a block, which is the first frame if this has a type byte. -/
inductive Front (env : RecvEnv) (s : Stream) : Received → Prop
  | failed (refused : ¬ env.Serves (announced s.pending)) : Front env s .failed
  | ending (none : frames.units s.pending = []) : Front env s s.ending.outcome
  | block (frame buf : Bytes) (n : ℕ) (first : (frames.units s.pending).head? = some frame)
      (eq : 5 ≤ frame.length → buf = frame) : Front env s (.message buf n)

theorem recvall_front {env : RecvEnv} {s : Stream} (hwhole : env.WholeHeader)
    (header : s.pending = [] ∨ 4 ≤ s.pending.length) : Front env s (recvall env s).1 := by
  rcases header with hnil | hlen
  · have hnone : frames.units s.pending = [] := by
      rw [Cutter.units_eq_nil, frames_head_eq_none, hnil]
      exact .inl (by decide)
    rw [recvall_of_nil hnil]
    split
    · exact .ending hnone
    · rename_i hserves
      exact .failed fun h => hserves h.1
  · rcases recvall_failed_or hlen hwhole with ⟨hrefused, hfailed⟩ | hout
    · rw [hfailed]
      exact .failed hrefused
    · rw [hout]
      unfold Stream.outcome
      split
      · rename_i hsmall
        have hhead : frames.head s.pending = some 4 := frames_head.2 ⟨hlen, by omega, by omega⟩
        refine .block (s.pending.take 4) _ 4 (by rw [frames.units_of_some hhead]; rfl) fun h5 => ?_
        rw [List.length_take] at h5
        omega
      · split
        · rename_i hge hle
          have hhead : frames.head s.pending = some (announced s.pending) :=
            frames_head.2 ⟨hlen, hle, by omega⟩
          exact .block _ _ _ (by rw [frames.units_of_some hhead]; rfl) fun _ => rfl
        · rename_i hgt
          refine .ending ?_
          rw [Cutter.units_eq_nil, frames_head_eq_none]
          omega

end ChatRooms
