import ChatRooms.Net

/-!
# The splitting of a stream

Two calls of `recvall` on the same stream, with the same answers of the allocator, that differ in how
the kernel splits the stream over the calls of `recv` and in what the allocated blocks hold before they
are written.  Each is to hand over the frame at the front of the stream, and both are to return the
same.  The first `recv` is not repeated, so the length is read from whatever the block holds behind the
bytes it got: `recvall_split_iff`.
-/

namespace ChatRooms

/-- The two calls get the same answers from the host and the allocator. -/
structure RecvEnv.SameAnswers (env env' : RecvEnv) : Prop where
  host : env.host = env'.host
  header : env.headerHeap.serves = env'.headerHeap.serves
  body : env.bodyHeap.serves = env'.bodyHeap.serves

theorem RecvEnv.SameAnswers.symm {env env' : RecvEnv} (h : env.SameAnswers env') : env'.SameAnswers env :=
  ⟨h.host.symm, h.header.symm, h.body.symm⟩

theorem RecvEnv.SameAnswers.serves {env env' : RecvEnv} (h : env.SameAnswers env') (n : ℕ) :
    env.Serves n ↔ env'.Serves n := by
  unfold Serves
  rw [h.header, h.body]

/-- What `recvall` hands over is the frame at the front of the stream: as many bytes as it returns, which
are as many as the first four bytes of the stream announce. -/
def FrontFrame (env : RecvEnv) (s : Stream) : Prop :=
  ∀ buf n s', recvall env s = (.message buf n, s') → 0 < n →
    buf.length = n ∧ 4 ≤ s.pending.length ∧ n = announced s.pending ∧ buf = s.pending.take n

/-- The header that the block holds after the first `recv` announces a length for which there are memory
and bytes. -/
def HandsOver (env : RecvEnv) (s : Stream) : Prop :=
  s.pending ≠ [] ∧ env.Serves (announced (env.header s)) ∧ announced (env.header s) ≤ s.pending.length

/-- After the first `recv` the block holds the first four bytes of the stream, and they announce no less
than what the first `recv` got. -/
def HeaderIntact (env : RecvEnv) (s : Stream) : Prop :=
  env.header s = s.pending.take 4 ∧ env.firstRecvd s ≤ announced s.pending

/-- A length header is determined by the number it announces. -/
theorem announced_inj {a b : Bytes} (ha : a.length = 4) (hb : b.length = 4) :
    announced a = announced b ↔ a = b := by
  refine ⟨fun h => ?_, fun h => by rw [h]⟩
  unfold announced at h
  rw [List.take_of_length_le ha.le, List.take_of_length_le hb.le] at h
  rw [← ByteOrder.big.store_load a, ← ByteOrder.big.store_load b, h, ha, hb]

/-- A call that finds the header intact reads the announced length. -/
theorem HeaderIntact.announced_eq {env : RecvEnv} {s : Stream} (h : HeaderIntact env s) :
    announced (env.header s) = announced s.pending := by
  rw [h.1, announced_take]

section FrontFrame

variable {env : RecvEnv} {s : Stream}

theorem recvall_of_handsOver (h : HandsOver env s) :
    (recvall env s).1 = .message (s.pending.take (announced (env.header s)))
      (max (announced (env.header s)) (env.firstRecvd s)) := by
  rw [recvall_eq h.1 h.2.1, if_pos h.2.2]

/-- Any other call on a stream that is not empty ends as the stream does, or fails. -/
theorem recvall_of_not_handsOver (hne : s.pending ≠ []) (h : ¬ HandsOver env s) :
    (recvall env s).1 =
      if env.Serves (announced (env.header s)) then s.ending.outcome else .failed := by
  by_cases hserves : env.Serves (announced (env.header s))
  · rw [recvall_eq hne hserves, if_neg fun hle => h ⟨hne, hserves, hle⟩, if_pos hserves]
  · rw [recvall_of_not_serves hne hserves, if_neg hserves]

theorem handsOver_of_message {buf : Bytes} {n : ℕ} (h : (recvall env s).1 = .message buf n) :
    HandsOver env s := by
  by_contra hnot
  by_cases hnil : s.pending = []
  · rw [recvall_of_nil hnil] at h
    split at h
    · exact StreamEnd.outcome_ne_message _ _ _ h
    · cases h
  · rw [recvall_of_not_handsOver hnil hnot] at h
    split at h
    · exact StreamEnd.outcome_ne_message _ _ _ h
    · cases h

/-- One call hands over the frame at the front of the stream exactly when the header it reads is intact,
or it hands over nothing. -/
theorem frontFrame_iff : FrontFrame env s ↔ (HandsOver env s → HeaderIntact env s) := by
  constructor
  · intro hframe hover
    obtain ⟨hpos, -, -⟩ := env.firstRecvd_bounds hover.1
    have hrecv : recvall env s = (.message _ _, (recvall env s).2) :=
      Prod.ext (recvall_of_handsOver hover) rfl
    obtain ⟨hlen, h4, hn, -⟩ := hframe _ _ _ hrecv (by omega)
    rw [List.length_take, Nat.min_eq_left hover.2.2] at hlen
    have hann : announced (env.header s) = announced s.pending := hlen.trans hn
    have hheader : (s.pending.take 4).length = 4 := by
      rw [List.length_take]
      omega
    refine ⟨(announced_inj (env.length_header hover.1) hheader).1 ?_, by omega⟩
    rw [announced_take, hann]
  · intro hintact buf n s' hrecv hn
    have hfst : (recvall env s).1 = .message buf n := congrArg Prod.fst hrecv
    have hover := handsOver_of_message hfst
    have hheader := hintact hover
    have hlen := congrArg List.length hheader.1
    have hle := hover.2.2
    rw [env.length_header hover.1, List.length_take] at hlen
    rw [recvall_of_handsOver hover, hheader.announced_eq, Nat.max_eq_left hheader.2] at hfst
    rw [hheader.announced_eq] at hle
    obtain ⟨rfl, rfl⟩ := Received.message.inj hfst
    exact ⟨by rw [List.length_take, Nat.min_eq_left hle], by omega, rfl, rfl⟩

end FrontFrame

section Split

variable {env env' : RecvEnv} {s : Stream}

/-- Where one call hands over a block, the two are as they are to be exactly when both find the header
intact. -/
theorem split_iff_of_handsOver (same : env.SameAnswers env') (hover : HandsOver env s) :
    (FrontFrame env s ∧ FrontFrame env' s ∧ (recvall env s).1 = (recvall env' s).1) ↔
      HeaderIntact env s ∧ HeaderIntact env' s := by
  constructor
  · rintro ⟨hframe, hframe', heq⟩
    have hover' : HandsOver env' s := handsOver_of_message (heq ▸ recvall_of_handsOver hover)
    exact ⟨frontFrame_iff.1 hframe hover, frontFrame_iff.1 hframe' hover'⟩
  · rintro ⟨hintact, hintact'⟩
    have hann : announced (env.header s) = announced (env'.header s) := by
      rw [hintact.announced_eq, hintact'.announced_eq]
    have hover' : HandsOver env' s := by
      refine ⟨hover.1, (same.serves _).1 ?_, ?_⟩
      · rw [← hann]
        exact hover.2.1
      · rw [← hann]
        exact hover.2.2
    refine ⟨frontFrame_iff.2 fun _ => hintact, frontFrame_iff.2 fun _ => hintact', ?_⟩
    rw [recvall_of_handsOver hover, recvall_of_handsOver hover', hintact.announced_eq,
      hintact'.announced_eq, Nat.max_eq_left hintact.2, Nat.max_eq_left hintact'.2]

/-- Where neither does, both return the same when the allocator serves both lengths or neither. -/
theorem recvall_eq_iff_of_not_handsOver (hne : s.pending ≠ []) (hover : ¬ HandsOver env s)
    (hover' : ¬ HandsOver env' s) :
    (recvall env s).1 = (recvall env' s).1 ↔ s.ending = .failed ∨
      (env.Serves (announced (env.header s)) ↔ env'.Serves (announced (env'.header s))) := by
  rw [recvall_of_not_handsOver hne hover, recvall_of_not_handsOver hne hover']
  have houtcome : s.ending.outcome = .failed ↔ s.ending = .failed := by
    cases s.ending <;> simp [StreamEnd.outcome]
  by_cases h : env.Serves (announced (env.header s)) <;>
    by_cases h' : env'.Serves (announced (env'.header s)) <;>
    simp [h, h', houtcome, eq_comm (a := Received.failed)]

end Split

/-- For every stream and every two calls that differ only in the splitting and in the initial contents of
the blocks, both hand over the frame at the front of the stream and return the same, exactly when: if
one of them hands over a block, both find the header intact; and the allocator serves both of the
lengths they read or neither, or the outcome is a failure anyway. -/
theorem recvall_split_iff {env env' : RecvEnv} (same : env.SameAnswers env') (s : Stream) :
    (FrontFrame env s ∧ FrontFrame env' s ∧ (recvall env s).1 = (recvall env' s).1) ↔
      (HandsOver env s ∨ HandsOver env' s → HeaderIntact env s ∧ HeaderIntact env' s) ∧
        (s.pending = [] ∨ s.ending = .failed ∨
          (env.Serves (announced (env.header s)) ↔ env'.Serves (announced (env'.header s)))) := by
  by_cases hnil : s.pending = []
  · have hnot {e : RecvEnv} : ¬ HandsOver e s := fun h => h.1 hnil
    refine iff_of_true ⟨frontFrame_iff.2 fun h => absurd h hnot, frontFrame_iff.2 fun h => absurd h hnot,
      ?_⟩ ⟨fun h => absurd h (not_or.2 ⟨hnot, hnot⟩), .inl hnil⟩
    rw [recvall_of_nil hnil, recvall_of_nil hnil, same.header]
  by_cases hover : HandsOver env s ∨ HandsOver env' s
  · have hintact : (FrontFrame env s ∧ FrontFrame env' s ∧ (recvall env s).1 = (recvall env' s).1) ↔
        HeaderIntact env s ∧ HeaderIntact env' s := by
      rcases hover with hover | hover
      · exact split_iff_of_handsOver same hover
      · rw [and_left_comm, eq_comm, split_iff_of_handsOver same.symm hover, and_comm]
    rw [hintact]
    refine ⟨fun h => ⟨fun _ => h, .inr (.inr ?_)⟩, fun h => h.1 hover⟩
    rw [h.1.announced_eq, h.2.announced_eq]
    exact same.serves _
  · rw [not_or] at hover
    rw [recvall_eq_iff_of_not_handsOver hnil hover.1 hover.2, or_iff_right hnil]
    constructor
    · exact fun h => ⟨fun h' => absurd h' (not_or.2 hover), h.2.2⟩
    · exact fun h => ⟨frontFrame_iff.2 fun h' => absurd h' hover.1,
        frontFrame_iff.2 fun h' => absurd h' hover.2, h.2⟩

/-- An allocator whose blocks hold `b` where they have not been written. -/
def Heap.stale (b : UInt8) : Heap := ⟨fun n => decide (0 < n), fun _ => b⟩

/-- A frame of six bytes, read at once or in three pieces behind its header, is the same frame. -/
theorem recvall_split_iff_pieces :
    FrontFrame (.steady 6) ⟨[0, 0, 0, 6, 3, 2], .open⟩ ∧
      FrontFrame ⟨.little, .steady, .stale 7, fun call => if call = 0 then 4 else 1⟩
        ⟨[0, 0, 0, 6, 3, 2], .open⟩ ∧
      (recvall (.steady 6) ⟨[0, 0, 0, 6, 3, 2], .open⟩).1 =
        (recvall ⟨.little, .steady, .stale 7, fun call => if call = 0 then 4 else 1⟩
          ⟨[0, 0, 0, 6, 3, 2], .open⟩).1 :=
  (recvall_split_iff ⟨rfl, rfl, rfl⟩ ⟨[0, 0, 0, 6, 3, 2], .open⟩).2
    ⟨fun _ => ⟨⟨rfl, by decide⟩, ⟨rfl, by decide⟩⟩, .inr (.inr (iff_of_true ⟨rfl, rfl⟩ ⟨rfl, rfl⟩))⟩

/-- When the first `recv` gets three bytes of the header and the block holds a 5 behind them, the first five bytes
of a join message of six are handed over.  And a header below its own size gives a block that is smaller than
what is returned. -/
theorem recvall_split_loses :
    recvall (.steady 6) ⟨[0, 0, 0, 6, 3, 2], .open⟩ = (.message [0, 0, 0, 6, 3, 2] 6, ⟨[], .open⟩) ∧
      recvall ⟨.little, .stale 5, .steady, fun _ => 3⟩ ⟨[0, 0, 0, 6, 3, 2], .open⟩ =
        (.message [0, 0, 0, 6, 3] 5, ⟨[2], .open⟩) ∧
      ¬ FrontFrame ⟨.little, .stale 5, .steady, fun _ => 3⟩ ⟨[0, 0, 0, 6, 3, 2], .open⟩ ∧
      ¬ FrontFrame (.steady 4) ⟨[0, 0, 0, 2], .open⟩ := by
  refine ⟨rfl, rfl, fun h => ?_, fun h => ?_⟩
  · exact absurd (h [0, 0, 0, 6, 3] 5 _ rfl (by decide)).2.2.1 (by decide)
  · exact absurd (h [0, 0] 4 _ rfl (by decide)).1 (by decide)

end ChatRooms
