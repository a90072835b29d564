import ChatRooms.Frames
import ChatRooms.Server.MainLoop

/-!
# What the server takes from a client

The bytes of a connected client are handled frame by frame: while it stays connected, what arrives
from it is cut into the frames that have been handled and those that are still queued
(`Run.takes_from`).  When it is terminated, nothing of it is queued, unless the iteration comes to an
entry with `POLLHUP` (`MainStep.drained`).
-/

namespace ChatRooms

/-- The bytes that arrive on a descriptor in a turn. -/
def arrivedOn (c : Fd) (t : MainTurn) : Bytes :=
  match t.event with
  | .arrive fd bytes => if fd = c then bytes else []
  | _ => []

/-- The messages of a client that are handled in a turn. -/
def handledFrom (c : Fd) (t : MainTurn) : List Bytes :=
  match t.output with
  | .handled client (.message buf _) _ => if client = c then [buf] else []
  | _ => []

/-- If the turn is an iteration, its first `recv` takes all four bytes of the header. -/
def WholeHeader (t : MainTurn) : Prop :=
  match t.event with
  | .turn _ env => env.recv.WholeHeader
  | _ => True

/-- A message that is handled has a type byte. -/
theorem five_le_length_handled {env : Env} {client : Fd} {buf : Bytes} {n : ℕ} {s s' : Server}
    {outs : List Output} (h : handleClientMessage env client (.message buf n) s = .ok (some (s', outs, 1))) :
    5 ≤ buf.length := by
  obtain ⟨user, hfind⟩ := exists_sender h (by decide)
  simp only [handleClientMessage, hfind] at h
  obtain ⟨type, htype, -⟩ := Checked.bind_eq_ok.1 h
  obtain ⟨c, hc, -⟩ := getMessageType_eq_ok.1 htype
  obtain ⟨hlt, -⟩ := List.getElem?_eq_some_iff.1 hc
  exact hlt

/-- A step takes at most the first frame of a client that stays connected, and handles what it
takes. -/
theorem MainStep.takes {append : Append} {t : MainTurn} {c : Fd}
    (step : MainStep append t.before t.event t.output t.after) (h : Connected t.before.server)
    (hc : c ∈ t.before.server.userTable.ids) (stays : t.output ≠ .terminated c)
    (whole : handledFrom c t ≠ [] → WholeHeader t) :
    frames.Takes (t.before.streams c).pending (arrivedOn c t) (t.after.streams c).pending
      (handledFrom c t) := by
  obtain ⟨s, event, effect, s'⟩ := t
  dsimp only at step h hc stays ⊢
  cases step with
  | arrive fd bytes unended =>
    by_cases hfd : fd = c
    · subst hfd
      simp only [arrivedOn, handledFrom, if_true, Function.update_self]
      exact .arrive _ _
    · simp only [arrivedOn, handledFrom, if_neg hfd, Function.update_of_ne (Ne.symm hfd)]
      exact .refl _
  | finish fd ending unended =>
    by_cases hfd : fd = c
    · subst hfd
      simp only [arrivedOn, handledFrom, Function.update_self]
      exact .refl _
    · simp only [arrivedOn, handledFrom, Function.update_of_ne (Ne.symm hfd)]
      exact .refl _
  | poll revents pc => exact .refl _
  | turn i turn pc inside fresh iterated =>
    obtain ⟨pfd, -, iter⟩ := iterated_of_next iterated
    cases iter with
    | hangup hup gone => exact .refl _
    | @connected server fd hup input listener accept added =>
      have hne : c ≠ fd := fun he => (fresh fd accept).1 (he ▸ (h.opened c (.inr hc)).1)
      simp only [arrivedOn, handledFrom, Function.update_of_ne hne]
      exact .refl _
    | @message server outs buf n stream hup input client recv success =>
      by_cases hfd : pfd.fd = c
      · subst hfd
        have hwhole : turn.recv.WholeHeader := whole (by simp [handledFrom])
        obtain ⟨hhead, hbuf, rfl⟩ := recvall_takes hwhole recv (five_le_length_handled success)
        have htake := Cutter.Takes.unit hhead
        rw [← hbuf] at htake
        simpa only [arrivedOn, handledFrom, if_true, Function.update_self] using htake
      · simp only [arrivedOn, handledFrom, if_neg hfd, Function.update_of_ne (Ne.symm hfd)]
        exact .refl _
    | closed hup input client recv gone =>
      have hne : c ≠ pfd.fd := fun he => stays (by rw [he])
      simp only [arrivedOn, handledFrom, Function.update_of_ne hne]
      exact .refl _
    | idle hup input => exact .refl _
  | endPass i pc outside => exact .refl _

/-- A client that is not terminated stays connected. -/
theorem Run.mem_ids {append : Append} {s s' : MainState} {trace : MainTrace} {c : Fd}
    (run : Run (MainStep append) s trace s') (h : Connected s.server) (hc : c ∈ s.server.userTable.ids)
    (stays : ∀ t ∈ trace, t.output ≠ .terminated c) :
    Connected s'.server ∧ c ∈ s'.server.userTable.ids :=
  run.invariant (fun s => Connected s.server ∧ c ∈ s.server.userTable.ids) ⟨h, hc⟩
    fun t ht step hinv => ⟨hinv.1.mainStep step, hinv.1.mem_ids step hinv.2 (stays t ht)⟩

/-- While a client stays connected, the frames of all its bytes are those that have been handled and
those that are queued, in this order. -/
theorem Run.takes_from {append : Append} {s s' : MainState} {trace : MainTrace} {c : Fd}
    (run : Run (MainStep append) s trace s') (h : Connected s.server) (hc : c ∈ s.server.userTable.ids)
    (stays : ∀ t ∈ trace, t.output ≠ .terminated c)
    (whole : ∀ t ∈ trace, handledFrom c t ≠ [] → WholeHeader t) :
    frames.Takes (s.streams c).pending (trace.flatMap (arrivedOn c)) (s'.streams c).pending
      (trace.flatMap (handledFrom c)) := by
  refine run.takes frames (fun s => (s.streams c).pending) _ _ fun t ht step => ?_
  obtain ⟨pre, post, htrace⟩ := List.append_of_mem ht
  obtain ⟨before, -⟩ := run.turn_at htrace
  have hpre : ∀ u ∈ pre, u.output ≠ .terminated c := fun u hu => stays u (by
    rw [htrace]
    exact List.mem_append_left _ hu)
  obtain ⟨hconn, hmem⟩ := before.mem_ids h hc hpre
  exact step.takes hconn hmem (stays t ht) (whole t ht)

/-- If the turn is an iteration that comes to an entry with `POLLHUP`, no complete frame of its
descriptor is queued. -/
def HangupDrained (t : MainTurn) : Prop :=
  match t.event with
  | .turn i _ =>
    match t.before.server.pollfds.read i with
    | .ok pfd => pfd.revents &&& pollhup ≠ 0 → frames.head (t.before.streams pfd.fd).pending = none
    | .error _ => True
  | _ => True

/-- When a client is terminated no complete frame of it is queued. -/
theorem MainStep.drained {append : Append} {t : MainTurn} {c : Fd}
    (step : MainStep append t.before t.event t.output t.after) (hout : t.output = .terminated c)
    (drained : HangupDrained t) (whole : WholeHeader t) :
    frames.units (t.before.streams c).pending = [] := by
  obtain ⟨s, event, effect, s'⟩ := t
  dsimp only at step hout ⊢
  subst hout
  rw [Cutter.units_eq_nil]
  cases step with
  | turn i turn pc inside fresh iterated =>
    obtain ⟨pfd, hread, iter⟩ := iterated_of_next iterated
    simp only [HangupDrained, hread] at drained
    cases iter with
    | hangup hup gone => exact drained hup
    | closed hup input client recv gone => exact recvall_closed whole recv

/-! ## A client that connects and sends -/

/-- The state of a server with one client, before it polls. -/
def MainState.oneClient : MainState where
  server := { Server.start 3 with
    pollfds :=
      ⟨[⟨3, pollin, pollin⟩, ⟨4, pollin, 0⟩, ⟨0, 0, 0⟩, ⟨0, 0, 0⟩, ⟨0, 0, 0⟩], 2, initialCapacity⟩
    userTable := ((userTableAdd .steady .empty 4).toOption.join).getD .empty
    openFds := [4, 3] }
  pc := .poll
  streams := (MainState.start 3).opened (some 4)

theorem run_oneClient : ∃ trace, Run (MainStep pollfdArrayAppend) (.start 3) trace .oneClient ∧
    ∀ t ∈ trace, HangupDrained t ∧ WholeHeader t := by
  have before : Run (MainStep pollfdArrayAppend) (.start 3) [] (.start 3) := .start
  have run := (((before.turn (.poll (fun _ => pollin) rfl)).turn
    (.turn 0 ⟨.steady 0, .steady 6, some 4⟩ rfl (by decide) (.of_notMem (by decide)) rfl)).turn
    (.turn 1 ⟨.steady 0, .steady 6, none⟩ rfl (by decide) .none rfl)).turn
    (.endPass 2 rfl (by decide))
  have whole : (RecvEnv.steady 6).WholeHeader := by decide
  refine ⟨_, run, ?_⟩
  exact Run.forall_concat (Run.forall_concat (Run.forall_concat (Run.forall_concat
    (fun _ h => nomatch h) ⟨trivial, trivial⟩)
    ⟨fun h => absurd rfl h, whole⟩) ⟨fun h => absurd rfl h, whole⟩) ⟨trivial, trivial⟩

/-- The server when a new connection has been added to it, and every call has succeeded. -/
def Server.accepting (fd : Fd) (s : Server) : Server :=
  match handleNewClient pollfdArrayAppend (.steady 0) (some fd) s with
  | .ok (s, _) => s
  | .error _ => s

/-- The server when a client has asked for room `n`, and every call has succeeded. -/
def Server.joining (client : Fd) (n : UInt8) (s : Server) : Server :=
  match handleClientMessage (.steady 0) client (.message [0, 0, 0, 6, 3, n] 6) s with
  | .ok (some (s, _, _)) => s
  | _ => s

/-- The state of a server with two clients in room 2, before it polls. -/
def MainState.twoMembers : MainState where
  server := { ((MainState.oneClient.server.accepting 5).joining 4 2).joining 5 2 with
    pollfds := ⟨[⟨3, pollin, 0⟩, ⟨4, pollin, pollin⟩, ⟨5, pollin, pollin⟩, ⟨0, 0, 0⟩, ⟨0, 0, 0⟩], 3,
      initialCapacity⟩ }
  pc := .poll
  streams := fun _ => ⟨[], .open⟩

set_option maxRecDepth 5000 in
/-- A second client connects, and both join room 2. -/
theorem run_twoMembers : ∃ trace, Run (MainStep pollfdArrayAppend) (.start 3) trace .twoMembers := by
  obtain ⟨trace, before, -⟩ := run_oneClient
  have connected := ((((before.turn (.poll (fun i => if i = 0 then pollin else 0) rfl)).turn
    (.turn 0 ⟨.steady 0, .steady 6, some 5⟩ rfl (by decide) (.of_notMem (by decide)) rfl)).turn
    (.turn 1 ⟨.steady 0, .steady 6, none⟩ rfl (by decide) .none rfl)).turn
    (.turn 2 ⟨.steady 0, .steady 6, none⟩ rfl (by decide) .none rfl)).turn (.endPass 3 rfl (by decide))
  have asked := (connected.turn (.arrive 4 [0, 0, 0, 6, 3, 2] rfl)).turn (.arrive 5 [0, 0, 0, 6, 3, 2] rfl)
  have joined := ((((asked.turn (.poll (fun i => if i = 0 then 0 else pollin) rfl)).turn
    (.turn 0 ⟨.steady 0, .steady 6, none⟩ rfl (by decide) .none rfl)).turn
    (.turn 1 ⟨.steady 0, .steady 6, none⟩ rfl (by decide) .none rfl)).turn
    (.turn 2 ⟨.steady 0, .steady 6, none⟩ rfl (by decide) .none rfl)).turn (.endPass 3 rfl (by decide))
  obtain ⟨⟨server, pc, streams⟩, trace', run, hserver, hpc, hstreams⟩ : ∃ s trace',
      Run (MainStep pollfdArrayAppend) (.start 3) trace' s ∧ s.server = MainState.twoMembers.server ∧
        s.pc = .poll ∧ s.streams = fun _ => ⟨[], .open⟩ := by
    refine ⟨_, _, joined, rfl, rfl, ?_⟩
    funext fd
    by_cases h4 : fd = 4
    · rw [h4]
      rfl
    by_cases h5 : fd = 5
    · rw [h5]
      rfl
    -- The streams of 4 and 5 have been opened, written to and emptied.
    change Function.update (Function.update (Function.update (Function.update (Function.update (Function.update
      (fun _ : Fd => (⟨[], .open⟩ : Stream)) 4 _) 5 _) 4 _) 5 _) 4 _) 5 _ fd = _
    simp only [Function.update_of_ne h4, Function.update_of_ne h5]
  dsimp only at hserver hpc hstreams
  subst hserver hpc hstreams
  exact ⟨trace', run⟩

/-- A client can send bytes and reset its connection. -/
theorem exists_sent {append : Append} {s₀ s : MainState} {trace : MainTrace}
    (run : Run (MainStep append) s₀ trace s) {c : Fd} (bytes : Bytes) (h : s.streams c = ⟨[], .open⟩) :
    ∃ s' trace', Run (MainStep append) s₀ trace' s' ∧ s'.server = s.server ∧ s'.pc = s.pc ∧
      s'.streams c = ⟨bytes, .reset⟩ := by
  have hopen : (s.streams c).ending = .open := by rw [h]
  refine ⟨_, _, (run.turn (.arrive c bytes hopen)).turn (.finish c .reset ?_), rfl, rfl, ?_⟩
  · simp
  · simp [h]

end ChatRooms
