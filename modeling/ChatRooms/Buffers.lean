import ChatRooms.Lib.Blocks
import ChatRooms.Net

/-!
# Message buffers

`recvall` and the serializers once more, with the blocks that they allocate.  A serializer hands its block over
to its caller, and so does `recvall` when it has received a message; at the end of a stream it frees the block
itself.

`recvall_runs`: what `recvall` leaves.  When its `realloc` fails, the block of the header is lost.
-/

namespace ChatRooms

/-- The blocks that are left when the block at `p` has been received into. -/
def Received.left {A : Type} (live : Multiset A) (p : A) : Received → Multiset A
  | .message _ _ | .waits => p ::ₘ live
  | .closed | .failed => live

/-- `*buf`, which is set behind the loop. -/
def Received.buf {A : Type} (p : A) : Received → Option A
  | .message _ _ => some p
  | _ => none

/-- What `recvall` hands over: the block of a message, and nothing at the end of a stream.  A failure ends the
process. -/
def Handed {A : Type} (live : Multiset A) (a : Received × Stream × Option A) (b : Received × Stream)
    (left : Multiset A) : Prop :=
  a.1 = b.1 ∧ a.2.1 = b.2 ∧ match b.1 with
    | .message _ _ => ∃ p, a.2.2 = some p ∧ left = p ::ₘ live
    | .closed => left = live
    | .failed | .waits => True

namespace Heaped

variable {A ε : Type} [DecidableEq A]

/-- The loop of `recvall`, which receives into the block at `p`. -/
def recvLoop (p : A) (pick : ℕ → ℕ) (totalLen : ℕ) :
    ℕ → ℕ → Bytes → ℕ → Stream → OnHeap A ε (Received × Stream)
  | 0, _, msg, totalRecvd, s => return (.message msg totalRecvd, s)
  | fuel + 1, call, msg, totalRecvd, s =>
    if totalRecvd < totalLen then do
      OnHeap.access p
      match s.recv (totalLen - totalRecvd) (pick call) with
      | (.got b, s) =>
        recvLoop p pick totalLen fuel (call + 1) (overwrite msg totalRecvd b) (totalRecvd + b.length) s
      | (.closed, s) | (.reset, s) => do
        OnHeap.free p
        return (.closed, s)
      | (.failed, s) => do
        OnHeap.free p
        return (.failed, s)
      | (.waits, s) => return (.waits, s)
    else return (.message msg totalRecvd, s)

/-- `realloc` leaves the block where it is or moves it; one of no bytes it may free and return `NULL`. -/
def recvall (malloc : Allocator A) (env : RecvEnv) (s : Stream) : OnHeap A ε (Received × Stream × Option A) :=
  match env.headerHeap.malloc sizeofTotalMsgLen with
  | none => return (.failed, s, none)
  | some msg => do
    let p ← OnHeap.alloc malloc
    OnHeap.access p
    match s.recv sizeofTotalMsgLen (env.pick 0) with
    | (.got b, s) =>
      let msg := overwrite msg 0 b
      let totalLen := ntoh env.host sizeofTotalMsgLen (env.host.load msg)
      match env.bodyHeap.realloc msg totalLen with
      | none => do
        if totalLen = 0 then OnHeap.free p
        return (.failed, s, none)
      | some msg => do
        let p ← OnHeap.realloc malloc p
        let (received, s) ← recvLoop p env.pick totalLen (totalLen - b.length) 1 msg b.length s
        return (received, s, received.buf p)
    | (.closed, s) | (.reset, s) => do
      OnHeap.free p
      return (.closed, s, none)
    | (.failed, s) => do
      OnHeap.free p
      return (.failed, s, none)
    | (.waits, s) => return (.waits, s, none)

/-- A serializer, with the block that it allocated. -/
def serialized (malloc : Allocator A) (serialize : Checked (Option (Bytes × ℕ))) :
    OnHeap A Fault (Option (A × Bytes × ℕ)) := do
  match ← OnHeap.lift serialize with
  | none => return none
  | some (sendBuf, len) => do
    let p ← OnHeap.alloc malloc
    return some (p, sendBuf, len)

variable {live : Multiset A}

/-- The loop keeps the block when it returns a message or waits, and frees it when it ends otherwise. -/
theorem recvLoop_runs (p : A) (pick : ℕ → ℕ) (totalLen fuel call : ℕ) (msg : Bytes) (totalRecvd : ℕ) (s : Stream) :
    Runs (p ::ₘ live) (recvLoop p pick totalLen fuel call msg totalRecvd s)
      (.ok (ChatRooms.recvLoop pick totalLen fuel call msg totalRecvd s) : Except ε (Received × Stream))
      fun a b left => a = b ∧ left = b.1.left live p := by
  induction fuel generalizing call msg totalRecvd s with
  | zero => exact .pure ⟨rfl, rfl⟩
  | succ fuel ih =>
    unfold recvLoop ChatRooms.recvLoop
    by_cases hmissing : totalRecvd < totalLen
    · rw [if_pos hmissing, if_pos hmissing]
      apply Runs.access_bind (Multiset.mem_cons_self p live)
      obtain ⟨answer, s⟩ := s.recv (totalLen - totalRecvd) (pick call)
      cases answer with
      | got b => exact ih _ _ _ _
      | closed => exact .free_last_bind (.pure ⟨rfl, rfl⟩)
      | reset => exact .free_last_bind (.pure ⟨rfl, rfl⟩)
      | failed => exact .free_last_bind (.pure ⟨rfl, rfl⟩)
      | waits => exact .pure ⟨rfl, rfl⟩
    · rw [if_neg hmissing, if_neg hmissing]
      exact .pure ⟨rfl, rfl⟩

theorem recvall_runs (malloc : Allocator A) (env : RecvEnv) (s : Stream) :
    Runs live (recvall malloc env s) (.ok (ChatRooms.recvall env s) : Except ε (Received × Stream))
      (Handed live) := by
  unfold recvall ChatRooms.recvall
  cases env.headerHeap.malloc sizeofTotalMsgLen with
  | none => exact .pure ⟨rfl, rfl, trivial⟩
  | some msg =>
    dsimp only
    apply Runs.alloc_bind malloc
    intro p
    apply Runs.access_bind (Multiset.mem_cons_self p live)
    obtain ⟨answer, s⟩ := s.recv sizeofTotalMsgLen (env.pick 0)
    cases answer with
    | closed => exact .free_last_bind (.pure ⟨rfl, rfl, rfl⟩)
    | reset => exact .free_last_bind (.pure ⟨rfl, rfl, rfl⟩)
    | failed => exact .free_last_bind (.pure ⟨rfl, rfl, trivial⟩)
    | waits => exact .pure ⟨rfl, rfl, trivial⟩
    | got b =>
      dsimp only
      generalize ntoh env.host sizeofTotalMsgLen (env.host.load (overwrite msg 0 b)) = totalLen
      cases env.bodyHeap.realloc (overwrite msg 0 b) totalLen with
      | none =>
        dsimp only
        by_cases hempty : totalLen = 0
        · rw [if_pos hempty]
          exact .free_last_bind (.pure ⟨rfl, rfl, trivial⟩)
        · rw [if_neg hempty]
          exact .pure ⟨rfl, rfl, trivial⟩
      | some msg =>
        apply Runs.realloc_last_bind malloc
        intro q
        have hloop : Runs (q ::ₘ live) (recvLoop q env.pick totalLen (totalLen - b.length) 1 msg b.length s)
            (.ok _ : Except ε (Received × Stream)) _ := recvLoop_runs q env.pick totalLen _ 1 msg b.length s
        dsimp only
        generalize ChatRooms.recvLoop env.pick totalLen (totalLen - b.length) 1 msg b.length s = result at hloop ⊢
        apply hloop.bind_left
        rintro ⟨received, s⟩ left ⟨rfl, rfl⟩
        cases received with
        | message buf recvd => exact .pure ⟨rfl, rfl, q, rfl, rfl⟩
        | closed => exact .pure ⟨rfl, rfl, rfl⟩
        | failed => exact .pure ⟨rfl, rfl, trivial⟩
        | waits => exact .pure ⟨rfl, rfl, trivial⟩

omit [DecidableEq A] in
/-- What follows a serializer: nothing has been allocated, or one block. -/
theorem serialized_bind {α β : Type} (malloc : Allocator A) {x : Checked (Option (Bytes × ℕ))}
    {f : Option (A × Bytes × ℕ) → OnHeap A Fault α} {g : Option (Bytes × ℕ) → Checked β}
    {R : α → β → Multiset A → Prop} (hnone : Runs live (f none) (g none) R)
    (hsome : ∀ p sendBuf len, Runs (p ::ₘ live) (f (some (p, sendBuf, len))) (g (some (sendBuf, len))) R) :
    Runs live (serialized malloc x >>= f) (x >>= g) R := by
  rw [serialized, bind_assoc]
  apply Runs.lift_bind
  intro result _
  cases result with
  | none => exact hnone
  | some result =>
    obtain ⟨sendBuf, len⟩ := result
    dsimp only
    rw [bind_assoc]
    exact .alloc_bind malloc fun p => hsome p sendBuf len

end Heaped

end ChatRooms
