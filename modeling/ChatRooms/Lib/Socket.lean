import ChatRooms.Lib.Memory

/-!
# Stream sockets

One direction of a connection, seen from the calls that read and write it.  A call moves a part of
what it was asked to move, and which part is the kernel's choice: `chunk` turns any proposed number
into an allowed one, so quantifying over the proposals quantifies over all partial transfers.

* `Stream` is what a reader has in front of it: the bytes in order, and what follows them;
* `Stream.recv` is one `recv` call on it;
* `SendAnswer` is what one `send` call answers.
-/

namespace ChatRooms

/-- The number of bytes a call transfers when `want` are asked for and `avail` are there: any
proposal, at least one byte and at most both of them.  An allowed number is its own chunk. -/
def chunk (pick want avail : ℕ) : ℕ := min (max 1 pick) (min want avail)

theorem chunk_pos (pick : ℕ) {want avail : ℕ} (hw : 0 < want) (ha : 0 < avail) : 0 < chunk pick want avail := by
  unfold chunk
  omega

theorem chunk_le_want (pick want avail : ℕ) : chunk pick want avail ≤ want := by
  unfold chunk
  omega

theorem chunk_le_avail (pick want avail : ℕ) : chunk pick want avail ≤ avail := by
  unfold chunk
  omega

/-! ## Receiving -/

/-- What a reader meets behind the last byte of a stream: nothing yet, the peer's close, a reset
connection, or another error. -/
inductive StreamEnd where
  | open
  | closed
  | reset
  | failed
deriving DecidableEq, Repr

/-- The bytes that a reader has not read yet, and what follows them. -/
structure Stream where
  pending : Bytes
  ending : StreamEnd
deriving DecidableEq, Repr

/-- What one `recv` call answers: some bytes, 0 for a close, -1 with `ECONNRESET`, -1 with another
`errno`; or it does not return, because nothing has arrived. -/
inductive RecvAnswer where
  | got (bytes : Bytes)
  | closed
  | reset
  | failed
  | waits
deriving DecidableEq, Repr

/-- One `recv` call asking for `want` bytes. -/
def Stream.recv (s : Stream) (want pick : ℕ) : RecvAnswer × Stream :=
  match s.pending with
  | [] =>
    match s.ending with
    | .open => (.waits, s)
    | .closed => (.closed, s)
    | .reset => (.reset, s)
    | .failed => (.failed, s)
  | b :: bs =>
    let n := chunk pick want (b :: bs).length
    (.got ((b :: bs).take n), { s with pending := (b :: bs).drop n })

theorem Stream.recv_of_ne_nil {s : Stream} (h : s.pending ≠ []) (want pick : ℕ) :
    s.recv want pick = (.got (s.pending.take (chunk pick want s.pending.length)),
      { s with pending := s.pending.drop (chunk pick want s.pending.length) }) := by
  obtain ⟨pending, ending⟩ := s
  cases pending with
  | nil => exact absurd rfl h
  | cons b bs => rfl

/-! ## Sending -/

/-- What one `send` call answers: it takes some bytes, or fails; or it does not return, because the peer has
reset the connection and the default action of `SIGPIPE` ends the process, or because the peer reads nothing
and there is no room. -/
inductive SendAnswer where
  | accepted (pick : ℕ)
  | failed
  | sigpipe
  | waits
deriving DecidableEq, Repr

/-- The call takes some bytes. -/
def SendAnswer.Accepted : SendAnswer → Prop
  | .accepted _ => True
  | .failed | .sigpipe | .waits => False

end ChatRooms
