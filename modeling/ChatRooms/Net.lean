import ChatRooms.Lib.Socket
import ChatRooms.Messages.RoundTrip

/-!
# Sending and receiving whole messages

`sendall` and `recvall` of `utils/net_utils.c`.  `sendall` loops until the kernel has taken the
whole buffer.  `recvall` reads the four-byte header with a single `recv`, resizes the block to the
length the header gives, and loops until the block is full.

* `sendall_of_accepted`: when every `send` takes some bytes, exactly the buffer is sent.
* `sendEnd` is how a `sendall` ends; `sendEnd_causedBy`: as one of its calls does.
* `recvall_of_whole_header`: when the first `recv` fills the header, the outcome is a function of
  the stream alone, `Stream.outcome`, however the kernel splits the rest.
-/

namespace ChatRooms

/-! ## `sendall` -/

/-- How the loop of `sendall` ends: everything has been sent, or a call failed, killed the process or does not
return. -/
inductive SendEnd where
  | all
  | failed
  | killed
  | waits
deriving DecidableEq, Repr

/-- The loop of `sendall`: the bytes the kernel took from here on, and how it ends.  `fuel` bounds the number
of calls by the number of bytes left. -/
def sendLoop (answer : ℕ → SendAnswer) (buf : Bytes) (len : ℕ) : ℕ → ℕ → ℕ → Bytes × SendEnd
  | 0, _, _ => ([], .all)
  | fuel + 1, call, totalSent =>
    if totalSent < len then
      match answer call with
      | .failed => ([], .failed)
      | .sigpipe => ([], .killed)
      | .waits => ([], .waits)
      | .accepted pick =>
        let sent := chunk pick (len - totalSent) (len - totalSent)
        let rest := sendLoop answer buf len fuel (call + 1) (totalSent + sent)
        ((buf.drop totalSent).take sent ++ rest.1, rest.2)
    else ([], .all)

/-- Sends `len` bytes of `buf`: the bytes the kernel took, and the value returned, which is `len` or
`none` for -1; the latter also stands for a `sendall` that does not return. -/
def sendall (answer : ℕ → SendAnswer) (buf : Bytes) (len : ℕ) : Bytes × Option ℕ :=
  let r := sendLoop answer buf len len 0 0
  (r.1, if r.2 = .all then some len else none)

/-- How a `sendall` ends. -/
def sendEnd (answer : ℕ → SendAnswer) (buf : Bytes) (len : ℕ) : SendEnd := (sendLoop answer buf len len 0 0).2

/-- The end is one with which `sendall` returns. -/
def SendEnd.Returns : SendEnd → Prop
  | .all | .failed => True
  | .killed | .waits => False

instance : DecidablePred SendEnd.Returns
  | .all | .failed => inferInstanceAs (Decidable True)
  | .killed | .waits => inferInstanceAs (Decidable False)

theorem sendLoop_isPrefix (answer : ℕ → SendAnswer) (buf : Bytes) (len fuel call totalSent : ℕ) :
    (sendLoop answer buf len fuel call totalSent).1 <+: buf.drop totalSent := by
  induction fuel generalizing call totalSent with
  | zero => exact List.nil_prefix
  | succ fuel ih =>
    rw [sendLoop]
    split
    · split
      · exact List.nil_prefix
      · exact List.nil_prefix
      · exact List.nil_prefix
      · rename_i pick _
        dsimp only
        set sent := chunk pick (len - totalSent) (len - totalSent)
        obtain ⟨tail, ht⟩ := ih (call + 1) (totalSent + sent)
        refine ⟨tail, ?_⟩
        rw [List.append_assoc, ht, ← List.drop_drop, List.take_append_drop]
    · exact List.nil_prefix

/-- The fuel suffices: a loop in which no call failed has sent all that was left. -/
theorem sendLoop_eq_of_ok (answer : ℕ → SendAnswer) {buf : Bytes} {len : ℕ} (hlen : len = buf.length)
    {fuel call totalSent : ℕ} (hfuel : len - totalSent ≤ fuel)
    (hok : (sendLoop answer buf len fuel call totalSent).2 = .all) :
    (sendLoop answer buf len fuel call totalSent).1 = buf.drop totalSent := by
  induction fuel generalizing call totalSent with
  | zero => rw [sendLoop, List.drop_eq_nil_of_le (by omega)]
  | succ fuel ih =>
    rw [sendLoop] at hok ⊢
    split at hok
    · rename_i hlt
      rw [if_pos hlt]
      split at hok
      · cases hok
      · cases hok
      · cases hok
      · rename_i pick _
        dsimp only at hok ⊢
        have hpos := chunk_pos pick (Nat.sub_pos_of_lt hlt) (Nat.sub_pos_of_lt hlt)
        rw [ih (by omega) hok, ← List.drop_drop, List.take_append_drop]
    · rename_i hge
      rw [if_neg hge, List.drop_eq_nil_of_le (by omega)]

/-- A loop that did not end well has not sent all that was left. -/
theorem length_sendLoop_lt {answer : ℕ → SendAnswer} {buf : Bytes} {len fuel call totalSent : ℕ}
    (hfail : (sendLoop answer buf len fuel call totalSent).2 ≠ .all) :
    totalSent + (sendLoop answer buf len fuel call totalSent).1.length < len := by
  induction fuel generalizing call totalSent with
  | zero => exact absurd rfl hfail
  | succ fuel ih =>
    rw [sendLoop] at hfail ⊢
    split at hfail
    · rename_i hlt
      rw [if_pos hlt]
      split at hfail
      · simpa using hlt
      · simpa using hlt
      · simpa using hlt
      · dsimp only at hfail ⊢
        have hrest := ih hfail
        rw [List.length_append, List.length_take]
        omega
    · exact absurd rfl hfail

theorem sendLoop_ok_of_accepted {answer : ℕ → SendAnswer} (h : ∀ call, (answer call).Accepted)
    (buf : Bytes) (len fuel call totalSent : ℕ) :
    (sendLoop answer buf len fuel call totalSent).2 = .all := by
  induction fuel generalizing call totalSent with
  | zero => rfl
  | succ fuel ih =>
    rw [sendLoop]
    split
    · have haccepted := h call
      cases hanswer : answer call with
      | accepted pick => exact ih _ _
      | failed => exact (hanswer ▸ haccepted).elim
      | sigpipe => exact (hanswer ▸ haccepted).elim
      | waits => exact (hanswer ▸ haccepted).elim
    · rfl

/-- A call is answered in the way that gives the loop its end. -/
def SendEnd.CausedBy (answer : ℕ → SendAnswer) : SendEnd → Prop
  | .all => True
  | .failed => ∃ call, answer call = .failed
  | .killed => ∃ call, answer call = .sigpipe
  | .waits => ∃ call, answer call = .waits

theorem sendLoop_causedBy {answer : ℕ → SendAnswer} {buf : Bytes} {len fuel call totalSent : ℕ} :
    (sendLoop answer buf len fuel call totalSent).2.CausedBy answer := by
  induction fuel generalizing call totalSent with
  | zero => exact trivial
  | succ fuel ih =>
    rw [sendLoop]
    by_cases hlt : totalSent < len
    · rw [if_pos hlt]
      cases hanswer : answer call with
      | accepted pick => exact ih
      | failed => exact ⟨call, hanswer⟩
      | sigpipe => exact ⟨call, hanswer⟩
      | waits => exact ⟨call, hanswer⟩
    · rw [if_neg hlt]
      exact trivial

/-- What was sent is a prefix of the buffer. -/
theorem sendall_isPrefix (answer : ℕ → SendAnswer) (buf : Bytes) (len : ℕ) :
    (sendall answer buf len).1 <+: buf :=
  sendLoop_isPrefix answer buf len len 0 0

theorem sendall_eq_none_iff {answer : ℕ → SendAnswer} {buf : Bytes} {len : ℕ} :
    (sendall answer buf len).2 = none ↔ sendEnd answer buf len ≠ .all := by
  unfold sendEnd
  by_cases h : (sendLoop answer buf len len 0 0).2 = .all <;> simp [sendall, h]

/-- A returned length means that the whole buffer was sent. -/
theorem sendall_of_some {answer : ℕ → SendAnswer} {buf : Bytes} {n : ℕ}
    (h : (sendall answer buf buf.length).2 = some n) :
    sendall answer buf buf.length = (buf, some buf.length) := by
  have hok : sendEnd answer buf buf.length = .all := by
    by_contra hne
    rw [sendall_eq_none_iff.2 hne] at h
    cases h
  rw [sendEnd] at hok
  have hall := sendLoop_eq_of_ok answer rfl (Nat.sub_le _ _) hok
  rw [sendall, hall, hok]
  rfl

/-- A send that fails has not sent the whole buffer. -/
theorem sendall_of_none {answer : ℕ → SendAnswer} {buf : Bytes}
    (h : (sendall answer buf buf.length).2 = none) : (sendall answer buf buf.length).1 ≠ buf := by
  have hlt := length_sendLoop_lt (sendall_eq_none_iff.1 h)
  intro hall
  rw [show (sendLoop answer buf buf.length buf.length 0 0).1 = buf from hall] at hlt
  omega

/-- When every call takes some bytes the whole buffer is sent. -/
theorem sendall_of_accepted {answer : ℕ → SendAnswer} (h : ∀ call, (answer call).Accepted)
    (buf : Bytes) : sendall answer buf buf.length = (buf, some buf.length) := by
  apply sendall_of_some (n := buf.length)
  rw [sendall, sendLoop_ok_of_accepted h]
  rfl

theorem sendEnd_of_accepted {answer : ℕ → SendAnswer} (h : ∀ call, (answer call).Accepted) (buf : Bytes)
    (len : ℕ) : sendEnd answer buf len = .all :=
  sendLoop_ok_of_accepted h buf len len 0 0

theorem sendEnd_of_some {answer : ℕ → SendAnswer} {buf : Bytes} {len : ℕ} (h : (sendall answer buf len).2 ≠ none) :
    sendEnd answer buf len = .all := by
  by_contra hne
  exact h (sendall_eq_none_iff.2 hne)

/-- A `sendall` that does not send the whole buffer ends as one of its calls does. -/
theorem sendEnd_causedBy (answer : ℕ → SendAnswer) (buf : Bytes) (len : ℕ) :
    (sendEnd answer buf len).CausedBy answer :=
  sendLoop_causedBy

/-- A `sendall` that returns -1 has had a call that failed. -/
theorem exists_failed_of_none {answer : ℕ → SendAnswer} {buf : Bytes} {len : ℕ}
    (hreturns : (sendEnd answer buf len).Returns) (hnone : (sendall answer buf len).2 = none) :
    ∃ call, answer call = .failed := by
  have hcause := sendEnd_causedBy answer buf len
  have hne := sendall_eq_none_iff.1 hnone
  generalize sendEnd answer buf len = ending at hreturns hcause hne
  cases ending with
  | all => exact absurd rfl hne
  | failed => exact hcause
  | killed => exact hreturns.elim
  | waits => exact hreturns.elim

/-! ## `recvall` -/

/-- What the host contributes to one call of `recvall`: its byte order, the allocator's answers to
the `malloc` of the header and to the `realloc`, and the kernel's proposals for each `recv`. -/
structure RecvEnv where
  host : ByteOrder
  headerHeap : Heap
  bodyHeap : Heap
  pick : ℕ → ℕ

/-- A little-endian host whose allocator serves everything and whose kernel proposes `n` bytes for
every `recv`. -/
def RecvEnv.steady (n : ℕ) : RecvEnv := ⟨.little, .steady, .steady, fun _ => n⟩

/-- How `recvall` ends: with the block and the number of bytes it returns, with 0, with -1, or not
yet, because it waits for bytes that have not arrived. -/
inductive Received where
  | message (buf : Bytes) (recvd : ℕ)
  | closed
  | failed
  | waits
deriving DecidableEq, Repr

/-- `recv` writes what it got into the block.  It gets at most what it asks for, which is the room
left in the block. -/
def overwrite (b : Bytes) (off : ℕ) (src : Bytes) : Bytes := b.take off ++ src ++ b.drop (off + src.length)

/-- The loop of `recvall`; `fuel` bounds the number of calls by the number of bytes missing. -/
def recvLoop (pick : ℕ → ℕ) (totalLen : ℕ) : ℕ → ℕ → Bytes → ℕ → Stream → Received × Stream
  | 0, _, msg, totalRecvd, s => (.message msg totalRecvd, s)
  | fuel + 1, call, msg, totalRecvd, s =>
    if totalRecvd < totalLen then
      match s.recv (totalLen - totalRecvd) (pick call) with
      | (.got b, s) =>
        recvLoop pick totalLen fuel (call + 1) (overwrite msg totalRecvd b) (totalRecvd + b.length) s
      | (.closed, s) => (.closed, s)
      | (.reset, s) => (.closed, s)
      | (.failed, s) => (.failed, s)
      | (.waits, s) => (.waits, s)
    else (.message msg totalRecvd, s)

def recvall (env : RecvEnv) (s : Stream) : Received × Stream :=
  match env.headerHeap.malloc sizeofTotalMsgLen with
  | none => (.failed, s)
  | some msg =>
    match s.recv sizeofTotalMsgLen (env.pick 0) with
    | (.got b, s) =>
      -- The four bytes of the block are the header, also when fewer were received.
      let msg := overwrite msg 0 b
      let totalLen := ntoh env.host sizeofTotalMsgLen (env.host.load msg)
      match env.bodyHeap.realloc msg totalLen with
      | none => (.failed, s)
      | some msg => recvLoop env.pick totalLen (totalLen - b.length) 1 msg b.length s
    | (.closed, s) => (.closed, s)
    | (.reset, s) => (.closed, s)
    | (.failed, s) => (.failed, s)
    | (.waits, s) => (.waits, s)

/-! ## What `recvall` returns -/

/-- How a receiver that needs more bytes than are pending ends. -/
def StreamEnd.outcome : StreamEnd → Received
  | .open => .waits
  | .closed => .closed
  | .reset => .closed
  | .failed => .failed

/-- No block is handed over at the end of a stream. -/
theorem StreamEnd.outcome_ne_message (ending : StreamEnd) (buf : Bytes) (n : ℕ) :
    ending.outcome ≠ .message buf n := by
  cases ending <;> simp [outcome]

theorem Stream.recv_of_nil {s : Stream} (h : s.pending = []) (want pick : ℕ) :
    s.recv want pick = (match s.ending with
      | .open => .waits
      | .closed => .closed
      | .reset => .reset
      | .failed => .failed, s) := by
  obtain ⟨pending, ending⟩ := s
  subst h
  cases ending <;> rfl

/-- The loop reads exactly the missing bytes, or drains the stream and ends as the stream does. -/
theorem recvLoop_eq (pick : ℕ → ℕ) {totalLen fuel call totalRecvd : ℕ} {msg : Bytes} {s : Stream}
    (hmsg : msg.length = totalLen) (hle : totalRecvd ≤ totalLen) (hfuel : totalLen - totalRecvd ≤ fuel) :
    recvLoop pick totalLen fuel call msg totalRecvd s =
      if totalLen - totalRecvd ≤ s.pending.length then
        (.message (msg.take totalRecvd ++ s.pending.take (totalLen - totalRecvd)) totalLen,
          { s with pending := s.pending.drop (totalLen - totalRecvd) })
      else (s.ending.outcome, { s with pending := [] }) := by
  induction fuel generalizing call totalRecvd msg s with
  | zero =>
    have h0 : totalLen - totalRecvd = 0 := by omega
    have h1 : totalRecvd = msg.length := by omega
    rw [recvLoop, h0, if_pos (Nat.zero_le _), List.take_zero, List.append_nil, List.drop_zero, h1,
      List.take_length, hmsg]
  | succ fuel ih =>
    rw [recvLoop]
    by_cases hlt : totalRecvd < totalLen
    · rw [if_pos hlt]
      by_cases hp : s.pending = []
      · rw [Stream.recv_of_nil hp, hp, List.length_nil, if_neg (by omega)]
        obtain ⟨pending, ending⟩ := s
        subst hp
        cases ending <;> rfl
      · have hpos : 0 < s.pending.length := List.length_pos_iff.2 hp
        rw [Stream.recv_of_ne_nil hp]
        set n := chunk (pick call) (totalLen - totalRecvd) s.pending.length with hn
        have hn0 : 0 < n := chunk_pos _ (by omega) hpos
        have hnw : n ≤ totalLen - totalRecvd := chunk_le_want _ _ _
        have hna : n ≤ s.pending.length := chunk_le_avail _ _ _
        have hlen : (s.pending.take n).length = n := by
          rw [List.length_take]
          omega
        dsimp only
        rw [ih (by simp only [overwrite, List.length_append, List.length_take, List.length_drop]; omega)
          (by omega) (by omega), hlen, List.length_drop]
        -- The part read now and the part read later are together the missing part.
        have htake : (overwrite msg totalRecvd (s.pending.take n)).take (totalRecvd + n) =
            msg.take totalRecvd ++ s.pending.take n := by
          rw [overwrite, List.take_append_of_le_length, List.take_of_length_le]
          · simp only [List.length_append, List.length_take]
            omega
          · simp only [List.length_append, List.length_take]
            omega
        have hsplit : totalLen - totalRecvd = n + (totalLen - (totalRecvd + n)) := by omega
        have hcond : totalLen - (totalRecvd + n) ≤ s.pending.length - n ↔
            totalLen - totalRecvd ≤ s.pending.length := by omega
        simp only [hcond, htake]
        split
        · rw [List.drop_drop, List.append_assoc, ← List.take_add, ← hsplit]
        · rfl
    · have h0 : totalLen - totalRecvd = 0 := by omega
      have h1 : totalRecvd = msg.length := by omega
      rw [if_neg hlt, h0, if_pos (Nat.zero_le _), List.take_zero, List.append_nil, List.drop_zero, h1,
        List.take_length, hmsg]

/-- The length a stream's first four bytes announce. -/
def announced (b : Bytes) : ℕ := ByteOrder.big.load (b.take 4)

theorem announced_append {a b : Bytes} (h : 4 ≤ a.length) : announced (a ++ b) = announced a := by
  rw [announced, announced, List.take_append_of_le_length h]

/-- The allocator serves what `recvall` asks it for on a stream whose header announces `n`. -/
def RecvEnv.Serves (env : RecvEnv) (n : ℕ) : Prop :=
  env.headerHeap.serves 4 = true ∧ env.bodyHeap.serves n = true

instance (env : RecvEnv) (n : ℕ) : Decidable (env.Serves n) := inferInstanceAs (Decidable (_ ∧ _))

/-- The first `recv` of the call fills the header. -/
def RecvEnv.WholeHeader (env : RecvEnv) : Prop := 4 ≤ env.pick 0

instance (env : RecvEnv) : Decidable env.WholeHeader := inferInstanceAs (Decidable (_ ≤ _))

/-- What `recvall` makes of a stream whose header arrived whole: the first bytes, as many as the
header announces, or the stream's end if they never arrive.  A header below its own size leaves a
block that is smaller than the header. -/
def Stream.outcome (s : Stream) : Received × Stream :=
  if announced s.pending < 4 then
    (.message (s.pending.take (announced s.pending)) 4, { s with pending := s.pending.drop 4 })
  else if announced s.pending ≤ s.pending.length then
    (.message (s.pending.take (announced s.pending)) (announced s.pending),
      { s with pending := s.pending.drop (announced s.pending) })
  else (s.ending.outcome, { s with pending := [] })

/-- The number of bytes that the first `recv` gets. -/
def RecvEnv.firstRecvd (env : RecvEnv) (s : Stream) : ℕ := chunk (env.pick 0) 4 s.pending.length

/-- The four bytes of the block after the first `recv`: what it got, and behind them what the block held
before. -/
def RecvEnv.header (env : RecvEnv) (s : Stream) : Bytes :=
  s.pending.take (env.firstRecvd s) ++ ((List.range 4).map env.headerHeap.fresh).drop (env.firstRecvd s)

section Recvall

variable {env : RecvEnv} {s : Stream}

theorem RecvEnv.firstRecvd_bounds (hne : s.pending ≠ []) :
    0 < env.firstRecvd s ∧ env.firstRecvd s ≤ 4 ∧ env.firstRecvd s ≤ s.pending.length :=
  ⟨chunk_pos _ (by decide) (List.length_pos_iff.2 hne), chunk_le_want _ _ _, chunk_le_avail _ _ _⟩

theorem RecvEnv.length_header (hne : s.pending ≠ []) : (env.header s).length = 4 := by
  have := env.firstRecvd_bounds hne
  simp only [header, List.length_append, List.length_take, List.length_drop, List.length_map,
    List.length_range]
  omega

/-- The front of the header is what the first `recv` got. -/
theorem RecvEnv.take_header (hne : s.pending ≠ []) {n : ℕ} (hn : n ≤ env.firstRecvd s) :
    (env.header s).take n = s.pending.take n := by
  have hle := (env.firstRecvd_bounds hne).2.2
  rw [header, List.take_append_of_le_length (by rw [List.length_take]; omega), List.take_take,
    Nat.min_eq_left hn]

/-- What `recvall` does behind its first `recv`. -/
theorem recvall_of_header (hne : s.pending ≠ []) (hserves : env.headerHeap.serves 4 = true) :
    recvall env s =
      match env.bodyHeap.realloc (env.header s) (announced (env.header s)) with
      | none => (.failed, { s with pending := s.pending.drop (env.firstRecvd s) })
      | some msg =>
        recvLoop env.pick (announced (env.header s)) (announced (env.header s) - env.firstRecvd s) 1 msg
          (env.firstRecvd s) { s with pending := s.pending.drop (env.firstRecvd s) } := by
  have hlen := env.length_header hne
  have hgot : (s.pending.take (env.firstRecvd s)).length = env.firstRecvd s := by
    have := (env.firstRecvd_bounds hne).2.2
    rw [List.length_take]
    omega
  have hover : overwrite ((List.range 4).map env.headerHeap.fresh) 0
      (s.pending.take (env.firstRecvd s)) = env.header s := by
    rw [overwrite, hgot, Nat.zero_add, List.take_zero, List.nil_append, RecvEnv.header]
  have hload : ntoh env.host 4 (env.host.load (env.header s)) = announced (env.header s) := by
    rw [ntoh_load env.host hlen, announced, List.take_of_length_le hlen.le]
  simp only [recvall, sizeofTotalMsgLen, Heap.malloc_of_serves hserves, Stream.recv_of_ne_nil hne]
  rw [show chunk (env.pick 0) 4 s.pending.length = env.firstRecvd s from rfl, hover, hload, hgot]

/-- On a stream that is not empty, `recvall` reads the length from the header it finds in its block,
and takes that many bytes, but never fewer than the first `recv` got. -/
theorem recvall_eq (hne : s.pending ≠ []) (hserves : env.Serves (announced (env.header s))) :
    recvall env s =
      if announced (env.header s) ≤ s.pending.length then
        (.message (s.pending.take (announced (env.header s)))
          (max (announced (env.header s)) (env.firstRecvd s)),
          { s with pending := s.pending.drop (max (announced (env.header s)) (env.firstRecvd s)) })
      else (s.ending.outcome, { s with pending := [] }) := by
  obtain ⟨hpos, hle4, hle⟩ := env.firstRecvd_bounds hne
  have hlen := env.length_header hne
  rw [recvall_of_header hne hserves.1, Heap.realloc, if_pos hserves.2, hlen]
  dsimp only
  by_cases hsmall : announced (env.header s) < env.firstRecvd s
  · -- The header announces fewer bytes than have been received, and the loop is not entered.
    rw [Nat.sub_eq_zero_of_le hsmall.le, recvLoop, if_pos (by omega), Nat.max_eq_right hsmall.le,
      Nat.sub_eq_zero_of_le (by omega : announced (env.header s) ≤ 4), List.range_zero, List.map_nil,
      List.append_nil, RecvEnv.take_header hne hsmall.le]
  · rw [not_lt] at hsmall
    have hcond : announced (env.header s) - env.firstRecvd s ≤ s.pending.length - env.firstRecvd s ↔
        announced (env.header s) ≤ s.pending.length := by omega
    have hfront : ((env.header s).take (announced (env.header s)) ++
        (List.range (announced (env.header s) - 4)).map env.bodyHeap.fresh).take (env.firstRecvd s) =
          s.pending.take (env.firstRecvd s) := by
      rw [List.take_append_of_le_length (by rw [List.length_take, hlen]; omega), List.take_take,
        Nat.min_eq_left hsmall, RecvEnv.take_header hne le_rfl]
    rw [recvLoop_eq _ (by
        simp only [List.length_append, List.length_take, hlen, List.length_map, List.length_range]
        omega) hsmall le_rfl, List.length_drop, Nat.max_eq_left hsmall]
    simp only [hcond, hfront]
    split
    · rw [← List.take_add, List.drop_drop, Nat.add_sub_cancel' hsmall]
    · rfl

/-- Without memory for the header or for the length in it, `recvall` fails. -/
theorem recvall_of_not_serves (hne : s.pending ≠ []) (hserves : ¬ env.Serves (announced (env.header s))) :
    (recvall env s).1 = .failed := by
  by_cases hheader : env.headerHeap.serves 4 = true
  · rw [recvall_of_header hne hheader, Heap.realloc, if_neg fun hbody => hserves ⟨hheader, hbody⟩]
  · rw [recvall, sizeofTotalMsgLen, Heap.malloc_of_not_serves (Bool.eq_false_of_not_eq_true hheader)]

/-- On an empty stream `recvall` ends as the stream does. -/
theorem recvall_of_nil (hnil : s.pending = []) :
    (recvall env s).1 = if env.headerHeap.serves 4 = true then s.ending.outcome else .failed := by
  split
  · rename_i hserves
    rw [recvall, sizeofTotalMsgLen, Heap.malloc_of_serves hserves, Stream.recv_of_nil hnil]
    cases s.ending <;> rfl
  · rename_i hserves
    rw [recvall, sizeofTotalMsgLen, Heap.malloc_of_not_serves (Bool.eq_false_of_not_eq_true hserves)]

end Recvall

/-- A first `recv` that fills the header leaves the stream's first four bytes in the block. -/
theorem RecvEnv.header_of_whole {env : RecvEnv} {s : Stream} (hlen : 4 ≤ s.pending.length)
    (hwhole : env.WholeHeader) : env.firstRecvd s = 4 ∧ env.header s = s.pending.take 4 := by
  have hfirst : env.firstRecvd s = 4 := by
    unfold WholeHeader at hwhole
    unfold firstRecvd chunk
    omega
  refine ⟨hfirst, ?_⟩
  rw [header, hfirst, List.drop_eq_nil_of_le (by simp), List.append_nil]

theorem announced_take (b : Bytes) : announced (b.take 4) = announced b := by
  rw [announced, announced, List.take_take, Nat.min_self]

theorem recvall_of_whole_header {env : RecvEnv} {s : Stream} (hlen : 4 ≤ s.pending.length)
    (hserves : env.Serves (announced s.pending)) (hwhole : env.WholeHeader) :
    recvall env s = s.outcome := by
  have hne : s.pending ≠ [] := List.ne_nil_of_length_pos (by omega)
  obtain ⟨hfirst, hheader⟩ := RecvEnv.header_of_whole hlen hwhole
  have hann : announced (env.header s) = announced s.pending := by rw [hheader, announced_take]
  rw [recvall_eq hne (by rw [hann]; exact hserves), hann, hfirst, Stream.outcome]
  by_cases hsmall : announced s.pending < 4
  · rw [if_pos (by omega), if_pos hsmall, Nat.max_eq_right hsmall.le]
  · rw [if_neg hsmall, Nat.max_eq_left (not_lt.1 hsmall)]

end ChatRooms
