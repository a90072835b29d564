import ChatRooms.ClientLoop
import ChatRooms.Server.Intake

/-!
# Hang-ups

Both main loops test `POLLHUP` before `POLLIN`, so a peer whose last bytes arrive together with its
hang-up is dropped with these bytes unread.

* `HandledBeforeTermination` and `ProcessedBeforeExit` say that input that arrived before a hang-up is
  not dropped, by the server and by the client;
* `handled_before_hangup`: the server drops nothing in a run that meets a hang-up only when no
  complete frame is queued, and the client drops nothing exactly when no poll reports a hang-up
  together with complete input;
* `hangup_drops_input`: both drop input otherwise.
-/

namespace ChatRooms

/-! ## The server -/

/-- The turn is a poll that reports all of `bits` for a descriptor. -/
def Reports (t : MainTurn) (c : Fd) (bits : Events) : Prop :=
  (∃ revents, t.event = .poll revents) ∧
    ∃ pfd ∈ t.after.server.pollfds.entries, pfd.fd = c ∧ pfd.revents &&& bits = bits

/-- Every complete frame that is queued when a poll reports `POLLIN` for a client is handled before
the client is terminated. -/
def HandledBeforeTermination (trace : MainTrace) : Prop :=
  ∀ (c : Fd) (pre mid post : MainTrace) (p t : MainTurn), trace = pre ++ p :: (mid ++ t :: post) →
    Reports p c pollin → c ∈ p.after.server.userTable.ids →
    (∀ u ∈ mid, u.output ≠ .terminated c) → t.output = .terminated c →
    frames.units (p.after.streams c).pending <+: mid.flatMap (handledFrom c)

theorem handledBeforeTermination {append : Append} {s₀ s : MainState} {trace : MainTrace}
    (h₀ : MainInitial append s₀) (run : Run (MainStep append) s₀ trace s)
    (drained : ∀ t ∈ trace, HangupDrained t) (whole : ∀ t ∈ trace, WholeHeader t) :
    HandledBeforeTermination trace := by
  intro c pre mid post p t htrace _ hc stays hout
  obtain ⟨before, hpoll, rest⟩ := run.turn_at htrace
  obtain ⟨middle, hlast, -⟩ := rest.turn_at rfl
  have hconn : Connected p.after.server := (before.connected h₀).mainStep hpoll
  have hmem : ∀ u ∈ mid ++ t :: post, u ∈ trace := fun u hu => by
    rw [htrace]
    exact List.mem_append_right _ (List.mem_cons_of_mem _ hu)
  have htakes := middle.takes_from hconn hc stays fun u hu _ =>
    whole u (hmem u (List.mem_append_left _ hu))
  have ht : t ∈ trace := hmem t (List.mem_append_right _ List.mem_cons_self)
  have hleft := hlast.drained hout (drained t ht) (whole t ht)
  have hprefix := htakes.units_isPrefix
  rwa [hleft, List.append_nil] at hprefix

/-! ## The client -/

/-- The complete frames or lines of an input that have not been processed. -/
def ClientMain.complete (s : ClientMain) : Source → Bytes
  | .connection => (frames.units s.connection.pending).flatten
  | .stdin => (lines.units s.stdin.unread).flatten

/-- What the program processes of an input in a turn. -/
def processedFrom (source : Source) (t : ClientTurn) : Bytes :=
  match source, t.output with
  | .connection, .message (.message buf _) _ => buf
  | .stdin, .input (some line) _ => line
  | _, _ => []

/-- The turn is a poll that reports `POLLIN` and `POLLHUP` for an input. -/
def ReportsHangup (t : ClientTurn) (source : Source) : Prop :=
  (∃ revents, t.event = .poll revents) ∧ ∃ pfd ∈ t.after.pollfds.entries,
    pfd.fd = t.after.fd source ∧ pfd.revents &&& pollin ≠ 0 ∧ pfd.revents &&& pollhup ≠ 0

/-- The complete frames and lines that are there when a poll reports `POLLHUP` together with `POLLIN`
are processed before the program exits. -/
def ProcessedBeforeExit (trace : List ClientTurn) : Prop :=
  ∀ (source : Source) (pre mid post : List ClientTurn) (p t : ClientTurn),
    trace = pre ++ p :: (mid ++ t :: post) → ReportsHangup p source → t.after.pc = .exited →
    p.after.complete source <+: (mid ++ [t]).flatMap (processedFrom source)

/-- The index of an input in the poll array. -/
def Source.index : Source → ℕ
  | .connection => 0
  | .stdin => 1

/-- The program has exited, or its inner loop is still to come to an entry with `POLLHUP`. -/
def Doomed (source : Source) (s : ClientMain) : Prop :=
  s.pc = .exited ∨ ∃ j ≤ source.index, s.pc = .entry j ∧
    ∃ pfd, s.pollfds.entries[source.index]? = some pfd ∧ pfd.revents &&& pollhup ≠ 0

theorem TwoEntries.entry {s : ClientMain} (h : TwoEntries s) {source : Source} {pfd : Pollfd}
    (hmem : pfd ∈ s.pollfds.entries) (hfd : pfd.fd = s.fd source) :
    s.pollfds.entries[source.index]? = some pfd := by
  have hfds : s.pollfds.entries.map Pollfd.fd = [s.server, stdinFileno] := h.descriptors
  obtain ⟨a, l, hl, ha, hrest⟩ := List.map_eq_cons_iff.1 hfds
  obtain ⟨b, l', rfl, hb, hnil⟩ := List.map_eq_cons_iff.1 hrest
  obtain rfl := List.map_eq_nil_iff.1 hnil
  rw [hl] at hmem ⊢
  simp only [List.mem_cons, List.not_mem_nil, or_false] at hmem
  cases source with
  | connection =>
    rcases hmem with rfl | rfl
    · rfl
    · exact absurd (hfd.symm.trans hb) h.server
  | stdin =>
    rcases hmem with rfl | rfl
    · exact absurd (ha.symm.trans hfd) h.server
    · rfl

theorem processedFrom_idle (source : Source) (s s' : ClientMain) (event : ClientMainEvent) :
    processedFrom source ⟨s, event, .idle, s'⟩ = [] := by
  cases source <;> rfl

/-- The first entry is the one of the connection. -/
theorem TwoEntries.fd_first {s : ClientMain} (h : TwoEntries s) {pfd : Pollfd}
    (hentry : s.pollfds.entries[0]? = some pfd) : pfd.fd = s.server := by
  have hfirst := congrArg (·[0]?) h.descriptors
  rw [PollfdArray.descriptors] at hfirst
  simpa [hentry] using hfirst

/-- An iteration at or before the entry with `POLLHUP` processes nothing of the entry's input. -/
theorem TwoEntries.doomed_iterate {source : Source} {turn : ClientTurnEnv} {i : ℕ} {s s' : ClientMain}
    {effect : ClientEffect} (two : TwoEntries s) (inside : i < s.pollfds.len) (hle : i ≤ source.index)
    {pfd : Pollfd} (hentry : s.pollfds.entries[source.index]? = some pfd)
    (hhup : pfd.revents &&& pollhup ≠ 0) (h : clientIterate turn i s = .ok (some (s', effect)))
    (event : ClientMainEvent) : Doomed source s' ∧ processedFrom source ⟨s, event, effect, s'⟩ = [] := by
  obtain ⟨pfd', hread, iter⟩ := clientIterated_of_some h
  have hcell := (PollfdArray.read_eq_ok inside).1 hread
  -- Without `POLLHUP` the entry is the one of the connection, before the standard input's.
  have hfirst (hno : pfd'.revents &&& pollhup = 0) : source = .stdin ∧ i = 0 ∧ pfd'.fd = s.server := by
    have hindex : i ≠ source.index := by
      rintro rfl
      rw [hentry, Option.some.injEq] at hcell
      rw [hcell] at hhup
      exact hhup hno
    cases source with
    | connection => exact absurd (Nat.le_zero.1 hle) hindex
    | stdin =>
      have hle : i ≤ 1 := hle
      have hindex : i ≠ 1 := hindex
      obtain rfl : i = 0 := by omega
      exact ⟨rfl, rfl, two.fd_first hcell⟩
  have hdoomed (hno : pfd'.revents &&& pollhup = 0) : Doomed source s' := by
    obtain ⟨rfl, rfl, -⟩ := hfirst hno
    rcases iter.next_or_exited with hexit | hnext
    · exact .inl hexit
    · exact .inr ⟨1, le_rfl, hnext, pfd, by rw [iter.keeps.2]; exact hentry, hhup⟩
  cases iter with
  | hangup hup => exact ⟨.inl rfl, processedFrom_idle _ _ _ _⟩
  | ended hup input typed read =>
    exact absurd ((hfirst hup).2.2.symm.trans typed) two.server
  | line hup input typed read handled =>
    exact absurd ((hfirst hup).2.2.symm.trans typed) two.server
  | message hup input server recv handled =>
    refine ⟨hdoomed hup, ?_⟩
    obtain ⟨rfl, -, -⟩ := hfirst hup
    rfl
  | idle hup input => exact ⟨hdoomed hup, processedFrom_idle _ _ _ _⟩

/-- Once a hang-up has been reported for an input, nothing of it is processed any more. -/
theorem Doomed.step {source : Source} {t : ClientTurn} (h : Doomed source t.before)
    (two : TwoEntries t.before) (step : ClientMainStep t.before t.event t.output t.after) :
    Doomed source t.after ∧ processedFrom source t = [] := by
  obtain ⟨s, event, effect, s'⟩ := t
  dsimp only at h two step ⊢
  cases step with
  | arrive from_ bytes unended => exact ⟨by cases from_ <;> exact h, processedFrom_idle _ _ _ _⟩
  | finish from_ ending unended => exact ⟨by cases from_ <;> exact h, processedFrom_idle _ _ _ _⟩
  | poll revents pc =>
    rcases h with hexit | ⟨j, -, hj, -⟩
    · rw [hexit] at pc
      cases pc
    · rw [hj] at pc
      cases pc
  | turn i env pc inside iterated =>
    rcases h with hexit | ⟨j, hle, hj, pfd, hentry, hhup⟩
    · rw [hexit] at pc
      cases pc
    · rw [hj, ClientPc.entry.injEq] at pc
      subst pc
      exact two.doomed_iterate inside hle hentry hhup iterated _
  | endPass i pc outside =>
    rcases h with hexit | ⟨j, hle, hj, -⟩
    · rw [hexit] at pc
      cases pc
    · rw [hj, ClientPc.entry.injEq] at pc
      subst pc
      rw [two.len] at outside
      have : source.index ≤ 1 := by cases source <;> decide
      omega

/-- The client keeps what it should exactly when no poll reports a hang-up together with complete
input. -/
theorem processedBeforeExit_iff {s₀ s : ClientMain} {trace : List ClientTurn} (h₀ : ClientInitial s₀)
    (run : Run ClientMainStep s₀ trace s) (hexit : s.pc = .exited) :
    ProcessedBeforeExit trace ↔
      ∀ p ∈ trace, ∀ source, ReportsHangup p source → p.after.complete source = [] := by
  constructor
  · intro hkept p hp source hreport
    obtain ⟨pre, post, htrace⟩ := List.append_of_mem hp
    obtain ⟨before, hpoll, rest⟩ := run.turn_at htrace
    have two : TwoEntries p.after := (before.twoEntries h₀).step hpoll
    have ⟨⟨revents, hevent⟩, pfd, hmem, hfd, _, hhup⟩ := hreport
    have hpc : p.after.pc = .entry 0 := by
      rw [hevent] at hpoll
      exact hpoll.pc_of_poll
    have hdoomed : Doomed source p.after :=
      .inr ⟨0, Nat.zero_le _, hpc, pfd, two.entry hmem hfd, hhup⟩
    have hnothing : ∀ u ∈ post, processedFrom source u = [] := by
      intro u hu
      obtain ⟨l, r, hpost⟩ := List.append_of_mem hu
      obtain ⟨hbefore, hstep, -⟩ := rest.turn_at hpost
      have hinv := hbefore.invariant (fun s => Doomed source s ∧ TwoEntries s) ⟨hdoomed, two⟩
        fun t _ step hinv => ⟨(hinv.1.step hinv.2 step).1, hinv.2.step step⟩
      exact (hinv.1.step hinv.2 hstep).2
    cases post using List.reverseRecOn with
    | nil =>
      rw [← rest.eq_of_nil, hexit] at hpc
      cases hpc
    | append_singleton mid t =>
      obtain ⟨m, -, hlast⟩ := rest.split mid [t] rfl
      obtain ⟨-, rfl, -⟩ := hlast.step_of_singleton
      have hprefix := hkept source pre mid [] p t htrace hreport hexit
      rw [List.flatMap_eq_nil_iff.2 hnothing] at hprefix
      exact List.prefix_nil.1 hprefix
  · intro hnone source pre mid post p t htrace hreport _
    have hp : p ∈ trace := by
      rw [htrace]
      exact List.mem_append_right _ List.mem_cons_self
    rw [hnone p hp source hreport]
    exact List.nil_prefix

/-- Input that arrived before a hang-up is handled in every run of the server that comes to an entry
with `POLLHUP` only when no complete frame of its descriptor is queued, and in exactly the runs of
the client in which no poll reports `POLLHUP` and `POLLIN` for an input with a complete frame or
line. -/
theorem handled_before_hangup {append : Append} {s₀ s : MainState} {trace : MainTrace}
    (h₀ : MainInitial append s₀) (run : Run (MainStep append) s₀ trace s) {c₀ c : ClientMain}
    {clientTrace : List ClientTurn} (hc₀ : ClientInitial c₀)
    (clientRun : Run ClientMainStep c₀ clientTrace c) (exited : c.pc = .exited) :
    ((∀ t ∈ trace, HangupDrained t ∧ WholeHeader t) → HandledBeforeTermination trace) ∧
    (ProcessedBeforeExit clientTrace ↔
      ∀ p ∈ clientTrace, ∀ source, ReportsHangup p source → p.after.complete source = []) :=
  ⟨fun cond => handledBeforeTermination h₀ run (fun t ht => (cond t ht).1) fun t ht => (cond t ht).2,
    processedBeforeExit_iff hc₀ clientRun exited⟩

/-- When a client has connected, a poll can report `POLLHUP` and `POLLIN` for it, and it is terminated
at its entry. -/
theorem exists_hangup {s : MainState} (h : Agree s.server.rooms s.server.userTable) (pc : s.pc = .poll)
    (hc : 4 ∈ s.server.userTable.ids) {r r' : Events} (pollfds : s.server.pollfds =
      ⟨[⟨3, pollin, r⟩, ⟨4, pollin, r'⟩, ⟨0, 0, 0⟩, ⟨0, 0, 0⟩, ⟨0, 0, 0⟩], 2, 5⟩) :
    ∃ p u t : MainTurn, (∀ s₀ trace, Run (MainStep pollfdArrayAppend) s₀ trace s →
      Run (MainStep pollfdArrayAppend) s₀ (trace ++ [p] ++ [u] ++ [t]) t.after) ∧
      (Reports p 4 pollin ∧ p.after.server.userTable = s.server.userTable ∧
        p.after.streams = s.streams) ∧ u.output = .idle ∧ t.output = .terminated 4 ∧
      ((HangupDrained p ∧ WholeHeader p) ∧ (HangupDrained u ∧ WholeHeader u) ∧
        (frames.head (s.streams 4).pending = none → HangupDrained t ∧ WholeHeader t)) := by
  obtain ⟨⟨listener, fds, rooms, table, openFds⟩, pc', streams⟩ := s
  dsimp only at h pc hc pollfds ⊢
  subst pc pollfds
  let pfd : Pollfd := ⟨4, pollin, pollin ||| pollhup⟩
  let before : MainState := ⟨⟨listener, ⟨[⟨3, pollin, r⟩, ⟨4, pollin, r'⟩, ⟨0, 0, 0⟩, ⟨0, 0, 0⟩,
    ⟨0, 0, 0⟩], 2, 5⟩, rooms, table, openFds⟩, .poll, streams⟩
  let server : Server := ⟨listener,
    ⟨[⟨3, pollin, 0⟩, pfd, ⟨0, 0, 0⟩, ⟨0, 0, 0⟩, ⟨0, 0, 0⟩], 2, 5⟩, rooms, table, openFds⟩
  let turn : TurnEnv := ⟨.steady 0, .steady 6, none⟩
  have whole : turn.recv.WholeHeader := by decide
  have hin : pfd.revents &&& pollin = pollin := by decide
  have hup : pfd.revents &&& pollhup ≠ 0 := by decide
  have hmem : pfd ∈ [⟨3, pollin, 0⟩, pfd] := List.mem_cons_of_mem _ List.mem_cons_self
  have hidle : iterate pollfdArrayAppend turn 0 ⟨server, .entry 0, streams⟩ =
      .ok (.next ⟨server, .entry 1, streams⟩ .idle) := rfl
  obtain ⟨s', hgone⟩ := terminateAt_user turn (s := ⟨server, .entry 1, streams⟩) h hc Nat.one_lt_two
  have hhup : iterate pollfdArrayAppend turn 1 ⟨server, .entry 1, streams⟩ =
      .ok (.next s' (.terminated 4)) :=
    (iterate_of_hangup (show server.pollfds.read 1 = .ok pfd from rfl) hup).trans hgone
  let p : MainTurn := ⟨before, .poll fun i => if i = 1 then pollin ||| pollhup else 0, .idle,
    ⟨server, .entry 0, streams⟩⟩
  let u : MainTurn := ⟨⟨server, .entry 0, streams⟩, .turn 0 turn, .idle, ⟨server, .entry 1, streams⟩⟩
  let t : MainTurn := ⟨⟨server, .entry 1, streams⟩, .turn 1 turn, .terminated 4, s'⟩
  have hp : MainStep pollfdArrayAppend p.before p.event p.output p.after := .poll _ rfl
  have hu : MainStep pollfdArrayAppend u.before u.event u.output u.after :=
    .turn 0 turn rfl Nat.zero_lt_two .none hidle
  have ht : MainStep pollfdArrayAppend t.before t.event t.output t.after :=
    .turn 1 turn rfl Nat.one_lt_two .none hhup
  exact ⟨p, u, t, fun s₀ trace run => ((run.turn hp).turn hu).turn ht,
    ⟨⟨⟨_, rfl⟩, pfd, hmem, rfl, hin⟩, rfl, rfl⟩, rfl, rfl,
    ⟨trivial, trivial⟩, ⟨fun hno => absurd rfl hno, whole⟩, fun hnone => ⟨fun _ => hnone, whole⟩⟩

theorem append_three {α : Type} (l : List α) (a b c : α) :
    l ++ [a] ++ [b] ++ [c] = l ++ a :: ([b] ++ c :: []) := by
  simp

/-- A client sends a join message and resets the connection; the next poll reports `POLLIN` and
`POLLHUP`, and the client is terminated with the message unread.  A program whose user types a line
and ends the input exits with the line unread. -/
theorem hangup_drops_input :
    (∃ s trace, Run (MainStep pollfdArrayAppend) (.start 3) trace s ∧
      ¬ HandledBeforeTermination trace) ∧
    ∃ s trace, Run ClientMainStep (.start 3) trace s ∧ s.pc = .exited ∧
      ¬ ProcessedBeforeExit trace := by
  constructor
  · obtain ⟨trace, before, -⟩ := run_oneClient
    have hagree := (before.connected (MainState.start_initial (by decide))).agree
    have hc : 4 ∈ MainState.oneClient.server.userTable.ids := by decide
    obtain ⟨s, trace', sent, hserver, hpc, hqueued⟩ := exists_sent (c := 4) before [0, 0, 0, 6, 3, 2] rfl
    rw [← hserver] at hagree hc
    obtain ⟨p, u, t, hrun, ⟨hreport, htable, hstreams⟩, hu, ht, -⟩ :=
      exists_hangup hagree hpc hc (by rw [hserver]; rfl)
    refine ⟨_, _, hrun _ _ sent, fun hkept => ?_⟩
    have hhead : frames.head (p.after.streams 4).pending = some 6 := by
      rw [hstreams, hqueued]
      rfl
    have hprefix := hkept 4 trace' [u] [] p t (append_three _ _ _ _) hreport (by rw [htable]; exact hc)
      (by simp [hu]) ht
    have hnone : handledFrom 4 u = [] := by simp [handledFrom, hu]
    rw [List.flatMap_singleton, hnone, frames.units_of_some hhead] at hprefix
    cases List.prefix_nil.1 hprefix
  · have run := (((((.start : Run ClientMainStep (.start 3) [] (.start 3)).turn
      (.arrive .stdin [104, 105, 10] rfl)).turn
      (.finish .stdin .closed rfl)).turn
      (.poll (fun i => if i = 1 then pollin ||| pollhup else 0) rfl)).turn
      (.turn 0 ⟨.steady, .steady 6, fun _ => 3⟩ rfl (by decide) rfl)).turn
      (.turn 1 ⟨.steady, .steady 6, fun _ => 3⟩ rfl (by decide) rfl)
    refine ⟨_, _, run, rfl, fun hkept => ?_⟩
    have hentry : (⟨0, pollin, pollin ||| pollhup⟩ : Pollfd) ∈
        [⟨3, pollin, 0⟩, ⟨0, pollin, pollin ||| pollhup⟩] := List.mem_cons_of_mem _ List.mem_cons_self
    have hprefix : (lines.units [104, 105, 10]).flatten <+: [] :=
      hkept .stdin _ [_] [] _ _ (append_three _ _ _ _)
        ⟨⟨_, rfl⟩, _, hentry, rfl, by decide, by decide⟩ rfl
    have hhead : lines.head [104, 105, 10] = some 3 := rfl
    rw [lines.units_of_some hhead, List.flatten_cons] at hprefix
    cases List.append_eq_nil_iff.1 (List.prefix_nil.1 hprefix) |>.1

set_option maxRecDepth 8000 in
/-- A client joins a room and hangs up when its message has been handled, and a user types a line and ends the input
when it has been sent: nothing is dropped. -/
theorem handled_before_hangup_drained :
    ∃ s trace c clientTrace, Run (MainStep pollfdArrayAppend) (.start 3) trace s ∧
      (∃ t ∈ trace, handledFrom 4 t = [[0, 0, 0, 6, 3, 2]]) ∧ (∃ t ∈ trace, t.output = .terminated 4) ∧
      HandledBeforeTermination trace ∧
      Run ClientMainStep (.start 3) clientTrace c ∧ (∃ t ∈ clientTrace, processedFrom .stdin t = [104, 105, 10]) ∧
      c.pc = .exited ∧ (ProcessedBeforeExit clientTrace ↔
        ∀ p ∈ clientTrace, ∀ source, ReportsHangup p source → p.after.complete source = []) := by
  have hinit : MainInitial pollfdArrayAppend (.start 3) := MainState.start_initial (by decide)
  have whole : (RecvEnv.steady 6).WholeHeader := by decide
  obtain ⟨trace, s, handled, hpc, hc, hpollfds, hqueued, hcond, hjoined⟩ : ∃ trace s,
      Run (MainStep pollfdArrayAppend) (.start 3) trace s ∧ s.pc = .poll ∧ 4 ∈ s.server.userTable.ids ∧
      s.server.pollfds = ⟨[⟨3, pollin, 0⟩, ⟨4, pollin, pollin⟩, ⟨0, 0, 0⟩, ⟨0, 0, 0⟩, ⟨0, 0, 0⟩], 2, 5⟩ ∧
      (s.streams 4).pending = [] ∧ (∀ t ∈ trace, HangupDrained t ∧ WholeHeader t) ∧
      ∃ t ∈ trace, handledFrom 4 t = [[0, 0, 0, 6, 3, 2]] := by
    obtain ⟨trace, before, hcond⟩ := run_oneClient
    have handled := ((((before.turn (.arrive 4 [0, 0, 0, 6, 3, 2] rfl)).turn
      (.poll (fun i => if i = 1 then pollin else 0) rfl)).turn
      (.turn 0 ⟨.steady 0, .steady 6, none⟩ rfl (by decide) .none rfl)).turn
      (.turn 1 ⟨.steady 0, .steady 6, none⟩ rfl (by decide) .none rfl)).turn (.endPass 2 rfl (by decide))
    refine ⟨_, _, handled, rfl, by decide, rfl, rfl, ?_, _,
      List.mem_append_left _ (List.mem_append_right _ List.mem_cons_self), rfl⟩
    exact Run.forall_concat (Run.forall_concat (Run.forall_concat (Run.forall_concat (Run.forall_concat
      hcond ⟨trivial, trivial⟩) ⟨trivial, trivial⟩) ⟨fun h => absurd rfl h, whole⟩)
      ⟨fun h => absurd rfl h, whole⟩) ⟨trivial, trivial⟩
  obtain ⟨p, u, t, hrun, -, -, ht, hp, hu, hlast⟩ :=
    exists_hangup (handled.connected hinit).agree hpc hc hpollfds
  have hdrained := hlast (by rw [hqueued]; rfl)
  have cond := Run.forall_concat (Run.forall_concat (Run.forall_concat hcond hp) hu) hdrained
  obtain ⟨clientTrace, client, ended, hexit, hline⟩ : ∃ trace s, Run ClientMainStep (.start 3) trace s ∧
      s.pc = .exited ∧ ∃ t ∈ trace, processedFrom .stdin t = [104, 105, 10] := by
    have typed := (((((.start : Run ClientMainStep (.start 3) [] (.start 3)).turn
      (.arrive .stdin [104, 105, 10] rfl)).turn
      (.poll (fun i => if i = 1 then pollin else 0) rfl)).turn
      (.turn 0 ⟨.steady, .steady 6, fun _ => 3⟩ rfl (by decide) rfl)).turn
      (.turn 1 ⟨.steady, .steady 6, fun _ => 3⟩ rfl (by decide) rfl)).turn (.endPass 2 rfl (by decide))
    have ended := (((typed.turn (.finish .stdin .closed rfl)).turn
      (.poll (fun i => if i = 1 then pollin ||| pollhup else 0) rfl)).turn
      (.turn 0 ⟨.steady, .steady 6, fun _ => 3⟩ rfl (by decide) rfl)).turn
      (.turn 1 ⟨.steady, .steady 6, fun _ => 3⟩ rfl (by decide) rfl)
    exact ⟨_, _, ended, rfl, _, List.mem_append_left _ (List.mem_append_left _ (List.mem_append_left _
      (List.mem_append_left _ (List.mem_append_left _ (List.mem_append_right _ List.mem_cons_self))))), rfl⟩
  have hkept := handled_before_hangup hinit (hrun _ _ handled) (ClientMain.start_initial (by decide)) ended hexit
  obtain ⟨t', ht', hframe⟩ := hjoined
  exact ⟨_, _, client, clientTrace, hrun _ _ handled,
    ⟨t', List.mem_append_left _ (List.mem_append_left _ (List.mem_append_left _ ht')), hframe⟩, ⟨t, by simp, ht⟩,
    hkept.1 cond, ended, hline, hexit, hkept.2⟩

end ChatRooms
