import ChatRooms.Hangup

/-!
# Lines that nothing wakes the client for

`poll` sees the descriptor of the standard input, `fgets` hands out lines from a buffer in front of it,
and an iteration handles one line.  When one `read` returns several lines, those behind the first are in
the buffer, and the next `poll` waits for more input.

* `Awake`: when the client waits in `poll` and the descriptor holds nothing, it has handled every
  complete line that was typed;
* `awake`: this holds in every run in which no call of `fgets` swallows a line;
* `not_awake_of_swallowsLine`: when the program goes on after such a call, it soon waits in a state in
  which it fails;
* `burst_sleeps`: two lines at once are enough for it to fail.
-/

namespace ChatRooms

/-- What arrives on the standard input in a turn. -/
def typedIn (t : ClientTurn) : Bytes :=
  match t.event with
  | .arrive .stdin bytes => bytes
  | _ => []

/-- If `main` waits in `poll` with nothing to read on the standard input, every complete line that has
been read has been handled.  As the descriptor is empty, all that has arrived has been read. -/
def Awake (s₀ : ClientMain) (trace : List ClientTurn) (s : ClientMain) : Prop :=
  s.pc = .poll → s.stdin.descriptor = ⟨[], .open⟩ →
    (lines.units (s₀.stdin.unread ++ trace.flatMap typedIn)).flatten <+:
      trace.flatMap (processedFrom .stdin)

/-- `handle_input` is called for the standard input. -/
def ReadsStdin (t : ClientTurn) (turn : ClientTurnEnv) : Prop :=
  ∃ i pfd, t.event = .turn i turn ∧ t.before.pollfds.read i = .ok pfd ∧ pfd.fd = stdinFileno ∧
    pfd.revents &&& pollhup = 0 ∧ pfd.revents &&& pollin ≠ 0

/-- The reads of `fgets` take everything that the descriptor holds, and the newline of a line ends up
behind the piece that is handed out. -/
def SwallowsLine (t : ClientTurn) : Prop :=
  ∃ turn n, ReadsStdin t turn ∧ (fgets turn.read (textSizeLimit - 1) t.before.stdin).2.descriptor = ⟨[], .open⟩ ∧
    lineLength (textSizeLimit - 1) t.before.stdin.unread = some n ∧ 10 ∈ t.before.stdin.unread.drop n

/-! ## What a turn does to the standard input -/

/-- An iteration that goes on leaves the standard input as it is, or handles the piece that `fgets`
hands out. -/
theorem clientIterate_stdin {turn : ClientTurnEnv} {i : ℕ} {s s' : ClientMain} {effect : ClientEffect}
    (h : clientIterate turn i s = .ok (some (s', effect))) (hpc : s'.pc ≠ .exited) :
    (¬ ReadsStdin ⟨s, .turn i turn, effect, s'⟩ turn ∧ s'.stdin = s.stdin ∧
      ∀ event, processedFrom .stdin ⟨s, event, effect, s'⟩ = []) ∨
    ∃ piece executed, ReadsStdin ⟨s, .turn i turn, effect, s'⟩ turn ∧
      fgets turn.read (textSizeLimit - 1) s.stdin = (.line piece, s'.stdin) ∧
      effect = .input (some piece) executed := by
  obtain ⟨pfd, hread, iter⟩ := clientIterated_of_some h
  have hreads : ReadsStdin ⟨s, .turn i turn, effect, s'⟩ turn →
      pfd.fd = stdinFileno ∧ pfd.revents &&& pollin ≠ 0 := by
    rintro ⟨j, other, hevent, hother, hfd, -, hin⟩
    cases hevent
    obtain rfl : pfd = other := Except.ok.inj (hread.symm.trans hother)
    exact ⟨hfd, hin⟩
  cases iter with
  | hangup hup => exact absurd rfl hpc
  | ended hup input typed read => exact absurd rfl hpc
  | @line piece stdin executed status hup input typed read handled =>
    exact .inr ⟨piece, executed, ⟨i, pfd, rfl, hread, typed, hup, input⟩, read, rfl⟩
  | message hup input server recv handled =>
    exact .inl ⟨fun hr => server (hreads hr).1, rfl, fun _ => rfl⟩
  | idle hup input => exact .inl ⟨fun hr => (hreads hr).2 input, rfl, fun _ => rfl⟩

/-- A state from which the program has exited is followed by no other. -/
theorem ClientMainStep.pc_of_exited {s s' : ClientMain} {event : ClientMainEvent} {effect : ClientEffect}
    (step : ClientMainStep s event effect s') (h : s.pc = .exited) : s'.pc = .exited := by
  cases step with
  | arrive source bytes unended => cases source <;> exact h
  | finish source ending unended => cases source <;> exact h
  | poll revents pc => cases h.symm.trans pc
  | turn i env pc inside iterated => cases h.symm.trans pc
  | endPass i pc outside => cases h.symm.trans pc

/-- What arrives and what is handled is accounted for in every turn, as long as the program runs. -/
theorem ClientMainStep.conserves {t : ClientTurn} (step : ClientMainStep t.before t.event t.output t.after)
    (hpc : t.after.pc ≠ .exited) :
    t.before.stdin.unread ++ typedIn t = processedFrom .stdin t ++ t.after.stdin.unread := by
  obtain ⟨s, event, effect, s'⟩ := t
  dsimp only at step hpc ⊢
  cases step with
  | arrive source bytes unended =>
    rw [processedFrom_idle, List.nil_append]
    cases source with
    | connection => exact List.append_nil _
    | stdin => exact List.append_assoc _ _ _
  | finish source ending unended =>
    rw [processedFrom_idle, List.nil_append]
    cases source <;> exact List.append_nil _
  | poll revents pc => exact List.append_nil _
  | turn i env pc inside iterated =>
    rw [show typedIn ⟨s, .turn i env, effect, s'⟩ = [] from rfl, List.append_nil]
    rcases clientIterate_stdin iterated hpc with ⟨-, hsame, hnothing⟩ | ⟨piece, executed, -, hfgets, rfl⟩
    · rw [hsame, hnothing, List.nil_append]
    · exact (fgets_conserves hfgets).symm
  | endPass i pc outside => exact List.append_nil _

/-- A call that swallows no line. -/
theorem notMem_buffer_of_fgets {read : ℕ → ℕ} {s s' : Stdin} {piece : Bytes}
    (hfgets : fgets read (textSizeLimit - 1) s = (.line piece, s')) (hempty : s'.descriptor = ⟨[], .open⟩)
    (hbehind : ∀ n, lineLength (textSizeLimit - 1) s.unread = some n → 10 ∉ s.unread.drop n) : 10 ∉ s'.buffer := by
  have hunread : s'.unread = s'.buffer := by
    rw [Stdin.unread, hempty]
    exact List.append_nil _
  rw [← hunread]
  cases hlength : lineLength (textSizeLimit - 1) s.unread with
  | none =>
    have hno := notMem_of_lineLength_eq_none hlength
    rw [← fgets_conserves hfgets] at hno
    exact fun hmem => hno (List.mem_append_right _ hmem)
  | some n =>
    obtain ⟨s'', hline, hrest⟩ := fgets_line (by decide) read hlength
    rw [hfgets, Prod.mk.injEq] at hline
    rw [hline.2, hrest]
    exact hbehind n hlength

/-! ## Runs -/

/-- When the descriptor holds nothing, no line is left in the buffer. -/
def Announced (s : ClientMain) : Prop :=
  s.pc = .exited ∨ (s.stdin.descriptor = ⟨[], .open⟩ → 10 ∉ s.stdin.buffer)

/-- Only a call that swallows a line leaves one in the buffer with nothing in front of the descriptor. -/
theorem Announced.step {t : ClientTurn} (h : Announced t.before)
    (step : ClientMainStep t.before t.event t.output t.after) (hkeeps : ¬ SwallowsLine t) :
    Announced t.after := by
  rcases h with hexit | h
  · exact .inl (step.pc_of_exited hexit)
  obtain ⟨s, event, effect, s'⟩ := t
  dsimp only at step h ⊢
  cases step with
  | arrive source bytes unended =>
    right
    cases source with
    | connection => exact h
    | stdin =>
      intro hempty
      -- The descriptor was empty before as well.
      have hnil : s.stdin.descriptor.pending ++ bytes = [] := congrArg Stream.pending hempty
      apply h
      rw [← (List.append_eq_nil_iff.1 hnil).1, ← unended]
      rfl
  | finish source ending unended =>
    right
    cases source with
    | connection => exact h
    | stdin =>
      intro hempty
      have hnil : s.stdin.descriptor.pending = [] := congrArg Stream.pending hempty
      apply h
      rw [← hnil, ← unended]
      rfl
  | poll revents pc => exact .inr h
  | turn i env pc inside iterated =>
    by_cases hpc : s'.pc = .exited
    · exact .inl hpc
    · right
      rcases clientIterate_stdin iterated hpc with ⟨-, hsame, -⟩ | ⟨piece, executed, hreads, hfgets, -⟩
      · rw [hsame]
        exact h
      · intro hempty
        apply notMem_buffer_of_fgets hfgets hempty
        intro n hlength hmem
        refine hkeeps ⟨env, n, hreads, ?_, hlength, hmem⟩
        rw [hfgets]
        exact hempty
  | endPass i pc outside => exact .inr h

theorem Run.conserves {s₀ s : ClientMain} {trace : List ClientTurn} (run : Run ClientMainStep s₀ trace s)
    (hpc : s.pc ≠ .exited) :
    s₀.stdin.unread ++ trace.flatMap typedIn = trace.flatMap (processedFrom .stdin) ++ s.stdin.unread := by
  induction run with
  | start => exact List.append_nil _
  | @turn trace s s' event effect run step ih =>
    have hbefore : s.pc ≠ .exited := fun hexit => hpc (step.pc_of_exited hexit)
    have hturn : ClientMainStep (⟨s, event, effect, s'⟩ : ClientTurn).before _ _ _ := step
    have hlast := hturn.conserves hpc
    rw [List.flatMap_append, List.flatMap_append, List.flatMap_singleton, List.flatMap_singleton,
      ← List.append_assoc, ih hbefore, List.append_assoc, hlast, List.append_assoc]

/-- In a state that waits with nothing to read, what has been typed and not handled is in the buffer: it
holds no line exactly when every line has been handled. -/
theorem awake_iff_buffer {s₀ s : ClientMain} {trace : List ClientTurn} (run : Run ClientMainStep s₀ trace s)
    (hpc : s.pc = .poll) (hempty : s.stdin.descriptor = ⟨[], .open⟩) :
    Awake s₀ trace s ↔ 10 ∉ s.stdin.buffer := by
  have hrunning : s.pc ≠ .exited := by
    rw [hpc]
    exact ClientPc.noConfusion
  have hunread : s.stdin.unread = s.stdin.buffer := by
    rw [Stdin.unread, hempty]
    exact List.append_nil _
  have hall := run.conserves hrunning
  rw [hunread] at hall
  rw [← flatten_lines_isPrefix_iff (trace.flatMap (processedFrom .stdin)), ← hall]
  exact ⟨fun h => h hpc hempty, fun h _ _ => h⟩

/-- In every run in which no call of `fgets` swallows a line: whenever the client waits in `poll` with
nothing to read on the standard input, it has handled every complete line that has been read.  The
buffer of the C library is empty at the start. -/
theorem awake {s₀ s : ClientMain} {trace : List ClientTurn} (buffer : s₀.stdin.buffer = [])
    (run : Run ClientMainStep s₀ trace s) (keeps : ∀ t ∈ trace, ¬ SwallowsLine t) : Awake s₀ trace s := by
  intro hpc hempty
  have hstart : Announced s₀ := .inr fun _ => by
    rw [buffer]
    exact List.not_mem_nil
  have hannounced := run.invariant Announced hstart fun t ht step h => h.step step (keeps t ht)
  rcases hannounced with hexit | hannounced
  · cases hpc.symm.trans hexit
  · exact (awake_iff_buffer run hpc hempty).2 (hannounced hempty) hpc hempty

/-- The standard input is the last entry. -/
theorem TwoEntries.index_stdin {s : ClientMain} (two : TwoEntries s) {i : ℕ} {pfd : Pollfd}
    (inside : i < s.pollfds.len) (hread : s.pollfds.read i = .ok pfd) (hfd : pfd.fd = stdinFileno) : i = 1 := by
  have hcell := (PollfdArray.read_eq_ok inside).1 hread
  rw [two.len] at inside
  by_contra hne
  obtain rfl : i = 0 := by omega
  exact two.server ((two.fd_first hcell).symm.trans hfd)

/-- When a call has swallowed a line and the program goes on, the inner loop ends next, and the client
waits with the line in the buffer. -/
theorem not_awake_of_swallowsLine {s₀ : ClientMain} {trace : List ClientTurn} {t : ClientTurn}
    (h₀ : ClientInitial s₀) (run : Run ClientMainStep s₀ (trace ++ [t]) t.after) (h : SwallowsLine t)
    (hpc : t.after.pc ≠ .exited) :
    ∃ s, Run ClientMainStep s₀ (trace ++ [t] ++ [⟨t.after, .endPass, .idle, s⟩]) s ∧
      ¬ Awake s₀ (trace ++ [t] ++ [⟨t.after, .endPass, .idle, s⟩]) s := by
  obtain ⟨before, hstep, -⟩ := run.turn_at rfl
  have two := before.twoEntries h₀
  have two' := run.twoEntries h₀
  obtain ⟨s, event, effect, s'⟩ := t
  obtain ⟨turn, n, hreads, hempty, hlength, hmem⟩ := h
  have ⟨i, pfd, hevent, hread, hfd, hhup, _⟩ := hreads
  dsimp only at hevent hstep hread hpc hempty hlength hmem two two' run ⊢
  subst hevent
  cases hstep with
  | turn _ _ pc inside iterated =>
    rcases clientIterate_stdin iterated hpc with ⟨hno, -⟩ | ⟨piece, executed, -, hfgets, -⟩
    · exact absurd hreads hno
    have hnext : s'.pc = .entry 2 := by
      obtain ⟨_, -, iter⟩ := clientIterated_of_some iterated
      rw [iter.next_or_exited.resolve_left hpc, two.index_stdin inside hread hfd]
      rfl
    have hend : ¬ 2 < s'.pollfds.len := by
      rw [two'.len]
      exact lt_irrefl 2
    have run' := run.turn (.endPass 2 hnext hend)
    rw [hfgets] at hempty
    obtain ⟨rest, hline, hrest⟩ := fgets_line (by decide) turn.read hlength
    rw [hfgets, Prod.mk.injEq] at hline
    have hbuffer : s'.stdin.buffer = s.stdin.unread.drop n := by
      rw [← hrest, ← hline.2, Stdin.unread, hempty]
      exact (List.append_nil _).symm
    refine ⟨_, run', fun hawake => ?_⟩
    apply (awake_iff_buffer run' rfl hempty).1 hawake
    rw [← hbuffer] at hmem
    exact hmem

/-- One line is typed and handled, and the client waits again. -/
theorem awake_one_line : ∃ s trace, Run ClientMainStep (.start 3) trace s ∧ s.pc = .poll ∧
    s.stdin.descriptor = ⟨[], .open⟩ ∧ trace.flatMap typedIn = ascii "/a\n" ∧ Awake (.start 3) trace s := by
  have run := ((((.start : Run ClientMainStep (.start 3) [] (.start 3)).turn
    (.arrive .stdin (ascii "/a\n") rfl)).turn
    (.poll (fun i => if i = 1 then pollin else 0) rfl)).turn
    (.turn 0 ⟨.steady, .steady 6, fun _ => 4096⟩ rfl (by decide) rfl)).turn
    (.turn 1 ⟨.steady, .steady 6, fun _ => 4096⟩ rfl (by decide) rfl) |>.turn
    (.endPass 2 rfl (by decide))
  refine ⟨_, _, run, rfl, rfl, rfl, awake rfl run fun t ht => ?_⟩
  rintro ⟨turn, n, ⟨i, pfd, hevent, hread, hfd, -⟩, -, hlength, hmem⟩
  simp only [List.nil_append, List.cons_append, List.mem_cons, List.not_mem_nil, or_false] at ht
  rcases ht with rfl | rfl | rfl | rfl | rfl
  · cases hevent
  · cases hevent
  · -- The first entry is the connection.
    cases hevent
    cases hread
    exact absurd hfd (by decide)
  · -- Nothing stands behind the line.
    cases hevent
    cases hlength
    exact absurd hmem (by decide)
  · cases hevent

/-- Two lines are typed at once: `fgets` takes both, the first is handled, and the client waits with the
second in the buffer. -/
theorem burst_sleeps : ∃ s trace, Run ClientMainStep (.start 3) trace s ∧
    trace.flatMap typedIn = ascii "/a\n/b\n" ∧ trace.flatMap (processedFrom .stdin) = ascii "/a\n" ∧
    ¬ Awake (.start 3) trace s := by
  have run := ((((.start : Run ClientMainStep (.start 3) [] (.start 3)).turn
    (.arrive .stdin (ascii "/a\n/b\n") rfl)).turn
    (.poll (fun i => if i = 1 then pollin else 0) rfl)).turn
    (.turn 0 ⟨.steady, .steady 6, fun _ => 4096⟩ rfl (by decide) rfl)).turn
    (.turn 1 ⟨.steady, .steady 6, fun _ => 4096⟩ rfl (by decide) rfl) |>.turn
    (.endPass 2 rfl (by decide))
  refine ⟨_, _, run, rfl, rfl, fun hawake => ?_⟩
  exact (awake_iff_buffer run rfl rfl).1 hawake (by decide)

end ChatRooms
