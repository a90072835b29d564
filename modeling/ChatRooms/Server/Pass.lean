import ChatRooms.Server.PollSet

/-!
# One pass of the main loop

Between two polls the inner loop walks over the poll array while its iterations remove entries, each of
which is replaced by the last one, and append the entry of a new connection.  With an append that has
its documented effect, what has been examined and what is left from the index on are together the
entries of the poll and the appended one (`InPass`); so the loop ends, and examines each entry of the
poll once, with the bits that the poll reported: `pass_visits_once`.
-/

namespace ChatRooms

/-! ## What a pass does -/

/-- The entry that an iteration reads. -/
def examinedEntry (t : MainTurn) : Option Pollfd :=
  match t.event with
  | .turn i _ => (t.before.server.pollfds.read i).toOption
  | _ => none

/-- The entry that an iteration appends. -/
def appendedEntry (t : MainTurn) : Option Pollfd :=
  match t.output with
  | .accepted (some fd) => some ⟨fd, pollin, 0⟩
  | _ => none

/-- The client that an iteration handles a message of, or terminates. -/
def Effect.client : Effect → Option Fd
  | .handled client _ _ => some client
  | .terminated client => some client
  | _ => none

/-- The entries that the iterations of a trace read, in order. -/
def examined (trace : MainTrace) : List Pollfd := trace.filterMap examinedEntry

/-- The entries that the iterations of a trace append. -/
def appended (trace : MainTrace) : List Pollfd := trace.filterMap appendedEntry

/-- The number of iterations in a trace. -/
def iterations (trace : MainTrace) : ℕ :=
  trace.countP fun t => match t.event with
    | .turn _ _ => true
    | _ => false

/-! ## The invariant -/

/-- Inside a pass that started in `start`, after the entries `seen` have been examined and the entries
`added` have been appended. -/
structure InPass (start : Server) (seen added : List Pollfd) (s : MainState) : Prop where
  pollSet : PollSet s.server
  rest : ∀ i, s.pc = .entry i → i ≤ s.server.pollfds.len ∧
    (seen ++ s.server.pollfds.entries.drop i).Perm (start.pollfds.entries ++ added)
  done : s.pc = .poll → seen.Perm (start.pollfds.entries ++ added)
  first : s.pc = .entry 0 → seen = [] ∧ added = [] ∧ s.server = start
  length : added.length ≤ 1
  fresh : ∀ pfd ∈ added, pfd.revents = 0 ∧ pfd.fd ∉ start.pollfds.descriptors

/-- What an iteration does is done for an entry of the poll. -/
structure Examines (start : Server) (t : MainTurn) : Prop where
  entry : t.output ≠ .idle → ∃ pfd ∈ start.pollfds.entries, examinedEntry t = some pfd
  client : ∀ c, t.output.client = some c → c ∈ start.pollfds.descriptors

theorem nextIndex_eq {i : ℕ} (h : i + 1 < 2 ^ 32) : nextIndex i = i + 1 := u32_of_lt h

theorem repeatIndex_eq {i : ℕ} (h : i < 2 ^ 32) : repeatIndex i = i := by
  unfold repeatIndex u32
  omega

namespace InPass

variable {start : Server} {seen added : List Pollfd} {s : MainState}

/-- What an iteration reads is what is left of the poll, or an appended entry. -/
theorem mem_of_read (h : InPass start seen added s) {i : ℕ} {pfd : Pollfd} (hpc : s.pc = .entry i)
    (hi : i < s.server.pollfds.len) (hread : s.server.pollfds.read i = .ok pfd) :
    s.server.pollfds.entries.drop i = pfd :: s.server.pollfds.entries.drop (i + 1) ∧
      (pfd ∈ start.pollfds.entries ∨ pfd ∈ added) := by
  obtain ⟨hlt, hcell⟩ := List.getElem?_eq_some_iff.1 ((PollfdArray.read_eq_ok hi).1 hread)
  have hdrop := List.drop_eq_getElem_cons hlt
  rw [hcell] at hdrop
  refine ⟨hdrop, ?_⟩
  have hmem : pfd ∈ seen ++ s.server.pollfds.entries.drop i := by
    rw [hdrop]
    exact List.mem_append_right _ List.mem_cons_self
  exact List.mem_append.1 ((h.rest i hpc).2.mem_iff.1 hmem)

section Iteration

variable {i : ℕ} {pfd : Pollfd} {s' : MainState} (h : InPass start seen added s) (hpc : s.pc = .entry i)
  (hi : i < s.server.pollfds.len) (hread : s.server.pollfds.read i = .ok pfd) (pollSet : PollSet s'.server)

include h hpc hi hread pollSet

/-- An iteration that keeps the entries. -/
theorem kept (hpollfds : s'.server.pollfds = s.server.pollfds) (hpc' : s'.pc = .entry (nextIndex i)) :
    InPass start (seen ++ [pfd]) added s' := by
  have hlen := h.pollSet.len_lt
  rw [nextIndex_eq (by omega)] at hpc'
  refine ⟨pollSet, fun j hj => ?_, fun hj => ?_, fun hj => ?_, h.length, h.fresh⟩
  · rw [hpc', Pc.entry.injEq] at hj
    rw [hpollfds, ← hj, List.append_assoc, List.singleton_append, ← (h.mem_of_read hpc hi hread).1]
    exact ⟨hi, (h.rest i hpc).2⟩
  · rw [hpc'] at hj
    cases hj
  · rw [hpc'] at hj
    cases hj

/-- An iteration that removes the entry it has read. -/
theorem removed (hclient : 1 ≤ i) (hentries : s'.server.pollfds.entries = swapRemove s.server.pollfds.entries i)
    (hpc' : s'.pc = .entry (repeatIndex i)) : InPass start (seen ++ [pfd]) added s' := by
  have hlen := h.pollSet.len_lt
  obtain ⟨hlt, hcell⟩ := List.getElem?_eq_some_iff.1 ((PollfdArray.read_eq_ok hi).1 hread)
  rw [repeatIndex_eq (by omega)] at hpc'
  refine ⟨pollSet, fun j hj => ?_, fun hj => ?_, fun hj => ?_, h.length, h.fresh⟩
  · rw [hpc', Pc.entry.injEq] at hj
    rw [← hj, ← pollSet.wf.length_entries, hentries, List.append_assoc, List.singleton_append]
    constructor
    · have hcons := (cons_swapRemove_perm hlt).length_eq
      rw [List.length_cons] at hcons
      omega
    · rw [← hcell]
      exact ((cons_drop_swapRemove_perm hlt).append_left seen).trans (h.rest i hpc).2
  · rw [hpc'] at hj
    cases hj
  · rw [hpc', Pc.entry.injEq] at hj
    omega

/-- An iteration at the listener that appends an entry. -/
theorem grown {fd : Fd} (hlistener : i = 0) (hfresh : fd ∉ start.pollfds.descriptors)
    (hentries : s'.server.pollfds.entries = s.server.pollfds.entries ++ [⟨fd, pollin, 0⟩])
    (hpc' : s'.pc = .entry (nextIndex i)) : InPass start (seen ++ [pfd]) (added ++ [⟨fd, pollin, 0⟩]) s' := by
  subst hlistener
  obtain ⟨rfl, rfl, rfl⟩ := h.first hpc
  obtain ⟨hdrop, -⟩ := h.mem_of_read hpc hi hread
  rw [List.drop_zero] at hdrop
  refine ⟨pollSet, fun j hj => ?_, fun hj => ?_, fun hj => ?_, le_rfl, fun e he => ?_⟩
  · rw [hpc', Pc.entry.injEq] at hj
    rw [← hj, ← pollSet.wf.length_entries, hentries, hdrop]
    exact ⟨by simp [nextIndex, u32], .refl _⟩
  · rw [hpc'] at hj
    cases hj
  · rw [hpc'] at hj
    cases hj
  · rw [List.nil_append, List.mem_singleton] at he
    rw [he]
    exact ⟨rfl, hfresh⟩

end Iteration

/-- Only an entry of the poll has bits. -/
theorem mem_start (h : InPass start seen added s) {i : ℕ} {pfd : Pollfd} (hpc : s.pc = .entry i)
    (hi : i < s.server.pollfds.len) (hread : s.server.pollfds.read i = .ok pfd) {bits : Events}
    (hbits : pfd.revents &&& bits ≠ 0) : pfd ∈ start.pollfds.entries := by
  apply (h.mem_of_read hpc hi hread).2.resolve_right
  intro hadded
  apply hbits
  rw [(h.fresh pfd hadded).1]
  exact BitVec.zero_and

/-- A termination removes the entry of a client, which is behind the listener. -/
theorem terminated (h : InPass start seen added s) {i : ℕ} {pfd : Pollfd} (hpc : s.pc = .entry i)
    (hi : i < s.server.pollfds.len) (hread : s.server.pollfds.read i = .ok pfd) {env : Env} {s' : MainState}
    (pollSet : PollSet s'.server)
    (handled : handleClientTermination env pfd.fd i s.server = .ok (s'.server, 0))
    (hpc' : s'.pc = .entry (repeatIndex i)) : InPass start (seen ++ [pfd]) added s' := by
  obtain ⟨-, hc, rooms', table', hserver, -, -⟩ :=
    handleClientTermination_eq_zero h.pollSet.connected.agree handled
  have hclient : 1 ≤ i := by
    apply Nat.pos_of_ne_zero
    intro h0
    rw [(h.pollSet.listener_iff hi hread).2 h0] at hc
    exact h.pollSet.connected.listener hc
  refine h.removed hpc hi hread pollSet hclient ?_ hpc'
  rw [hserver]
  exact (entries_delete h.pollSet.wf hi h.pollSet.len_lt env.realloc).2

/-- A step of a pass moves the entry it reads from those that are left to those that have been examined. -/
theorem step {append : Append} (doc : Documented append) {t : MainTurn} (h : InPass start seen added t.before)
    (step : MainStep append t.before t.event t.output t.after) (within : ∀ r, t.event ≠ .poll r) :
    InPass start (seen ++ (examinedEntry t).toList) (added ++ (appendedEntry t).toList) t.after ∧
      Examines start t := by
  have pollSet := h.pollSet.step doc step
  obtain ⟨s, event, effect, s'⟩ := t
  dsimp only at h step within pollSet ⊢
  have still (hevent : examinedEntry ⟨s, event, effect, s'⟩ = none) (heffect : effect = .idle)
      (hpass : InPass start seen added s') :
      InPass start (seen ++ (examinedEntry ⟨s, event, effect, s'⟩).toList)
        (added ++ (appendedEntry ⟨s, event, effect, s'⟩).toList) s' ∧
        Examines start ⟨s, event, effect, s'⟩ := by
    subst heffect
    rw [hevent, show appendedEntry ⟨s, event, .idle, s'⟩ = none from rfl, Option.toList_none,
      List.append_nil, List.append_nil]
    exact ⟨hpass, fun hne => absurd rfl hne, fun c hc => by cases hc⟩
  cases step with
  | arrive fd bytes unended =>
    exact still rfl rfl ⟨pollSet, h.rest, h.done, h.first, h.length, h.fresh⟩
  | finish fd ending unended =>
    exact still rfl rfl ⟨pollSet, h.rest, h.done, h.first, h.length, h.fresh⟩
  | poll revents pc => exact absurd rfl (within revents)
  | endPass i pc outside =>
    refine still rfl rfl ⟨pollSet, fun j hj => ?_, fun _ => ?_, fun hj => ?_, h.length, h.fresh⟩
    · cases hj
    · have hrest := (h.rest i pc).2
      rwa [List.drop_eq_nil_of_le (by rw [h.pollSet.wf.length_entries]; omega), List.append_nil] at hrest
    · cases hj
  | turn i env pc inside fresh iterated =>
    obtain ⟨pfd, hread, iter⟩ := iterated_of_next iterated
    have hexamined : examinedEntry ⟨s, .turn i env, effect, s'⟩ = some pfd := by
      simp only [examinedEntry, hread]
      rfl
    have examines {bits : Events} (hbits : pfd.revents &&& bits ≠ 0)
        (hclient : ∀ c, effect.client = some c → c = pfd.fd) : Examines start ⟨s, .turn i env, effect, s'⟩ := by
      have hmem := h.mem_start pc inside hread hbits
      refine ⟨fun _ => ⟨pfd, hmem, hexamined⟩, fun c hc => ?_⟩
      rw [hclient c hc]
      exact List.mem_map_of_mem hmem
    -- Only the listener's iteration appends.
    have kept (happended : appendedEntry ⟨s, .turn i env, effect, s'⟩ = none)
        (hpass : InPass start (seen ++ [pfd]) added s') : InPass start (seen ++ [pfd])
          (added ++ (appendedEntry ⟨s, .turn i env, effect, s'⟩).toList) s' := by
      rwa [happended, Option.toList_none, List.append_nil]
    rw [hexamined, Option.toList_some]
    cases iter with
    | hangup hup gone =>
      exact ⟨kept rfl (h.terminated pc inside hread pollSet gone rfl),
        examines hup fun c hc => (Option.some.inj hc).symm⟩
    | closed hup input client recv gone =>
      exact ⟨kept rfl (h.terminated pc inside hread pollSet gone rfl),
        examines input fun c hc => (Option.some.inj hc).symm⟩
    | idle hup input =>
      exact ⟨kept rfl (h.kept pc inside hread pollSet rfl rfl), fun hne => absurd rfl hne,
        fun c hc => by cases hc⟩
    | message hup input client recv success returned =>
      refine ⟨kept rfl (h.kept pc inside hread pollSet ?_ rfl),
        examines input fun c hc => (Option.some.inj hc).symm⟩
      rcases handleClientMessage_cases h.pollSet.connected.agree success with
        heq | ⟨user, -, -, rooms', user', -, -, -, heq⟩ <;> rw [heq]
    | @connected server fd hup input listener accept added =>
      have hzero := (h.pollSet.listener_iff inside hread).1 listener
      rw [show appendedEntry _ = some ⟨fd, pollin, 0⟩ from rfl, Option.toList_some]
      refine ⟨h.grown pc inside hread pollSet hzero ?_ ?_ rfl, examines input fun c hc => by cases hc⟩
      · rw [← (h.first (hzero ▸ pc)).2.2, h.pollSet.mem_descriptors, not_or]
        exact h.pollSet.connected.notMem_of_not_open (fresh fd accept).1
      · obtain ⟨_, pollfds, table', hfd, happ, -, heq⟩ := handleNewClient_eq_zero added
        cases hfd
        rw [heq]
        exact (doc.append_ok h.pollSet.wf happ).2

/-- The state in which a pass starts. -/
theorem start_of_poll {s s₁ : MainState} {append : Append} {revents : ℕ → Events} (h : PollSet s.server)
    (polled : MainStep append s (.poll revents) .idle s₁) : InPass s₁.server [] [] s₁ := by
  cases polled with
  | poll _ pc =>
    refine ⟨h.report revents, fun j hj => ?_, fun hj => ?_, fun _ => ⟨rfl, rfl, rfl⟩, Nat.zero_le _,
      fun e he => absurd he List.not_mem_nil⟩
    · cases hj
      rw [List.drop_zero, List.append_nil, List.nil_append]
      exact ⟨Nat.zero_le _, .refl _⟩
    · cases hj

/-- The entries of the poll are different from each other and from those that are appended. -/
theorem count_eq_one (h : InPass start seen added s) (hstart : PollSet start) {pfd : Pollfd}
    (hmem : pfd ∈ start.pollfds.entries) : (start.pollfds.entries ++ added).count pfd = 1 := by
  have hnodup : start.pollfds.entries.Nodup := by
    apply List.Nodup.of_map Pollfd.fd
    exact hstart.nodup_descriptors
  have hnew : pfd ∉ added := by
    intro hadded
    apply (h.fresh pfd hadded).2
    exact List.mem_map_of_mem hmem
  rw [List.count_append, List.count_eq_one_of_mem hnodup hmem, List.count_eq_zero_of_not_mem hnew]

/-- What the steps of a pass lead to. -/
theorem run {append : Append} (doc : Documented append) {s s' : MainState} {pass : MainTrace}
    (h : InPass start [] [] s) (run : Run (MainStep append) s pass s')
    (within : ∀ t ∈ pass, ∀ r, t.event ≠ .poll r) :
    InPass start (examined pass) (appended pass) s' ∧ ∀ t ∈ pass, Examines start t := by
  induction run with
  | start => exact ⟨h, fun t ht => absurd ht List.not_mem_nil⟩
  | @turn trace m m' e o run step ih =>
    obtain ⟨hpass, hall⟩ := ih fun t ht => within t (List.mem_append_left _ ht)
    have hlast := within ⟨m, e, o, m'⟩ (List.mem_append_right _ List.mem_cons_self)
    have hstep := hpass.step doc (t := ⟨m, e, o, m'⟩) step hlast
    have hcons (f : MainTurn → Option Pollfd) (t : MainTurn) :
        (trace ++ [t]).filterMap f = trace.filterMap f ++ (f t).toList := by
      rw [List.filterMap_append]
      cases hf : f t <;> simp [hf]
    unfold examined appended
    rw [hcons, hcons]
    exact ⟨hstep.1, Run.forall_concat hall hstep.2⟩

end InPass

/-- Every iteration examines one entry. -/
theorem iterations_eq {append : Append} {s s' : MainState} {trace : MainTrace}
    (run : Run (MainStep append) s trace s') : iterations trace = (examined trace).length := by
  induction run with
  | start => rfl
  | @turn trace m m' e o run step ih =>
    unfold iterations examined at ih ⊢
    rw [List.countP_append, List.filterMap_append, List.length_append, ih]
    congr 1
    cases step with
    | turn i env pc inside fresh iterated =>
      obtain ⟨pfd, hread, -⟩ := iterated_of_next iterated
      simp [examinedEntry, hread, Except.toOption]
    | arrive => rfl
    | finish => rfl
    | poll => rfl
    | endPass => rfl

/-! ## The visit of a pass -/

/-- The entries as `poll` leaves them. -/
def reported (s : MainState) (revents : ℕ → Events) : List Pollfd :=
  s.server.pollfds.entries.mapIdx fun i pfd => { pfd with revents := revents i }

/-- What a pass has done that started with a poll in `s`, and has come to `s'`. -/
structure Visited (s : MainState) (revents : ℕ → Events) (pass : MainTrace) (s' : MainState) : Prop where
  /-- The loop has a bounded number of iterations. -/
  ends : iterations pass ≤ s.server.pollfds.len + 1
  /-- From the index on the array holds what has not been examined yet. -/
  left : ∀ i, s'.pc = .entry i →
    (examined pass ++ s'.server.pollfds.entries.drop i).Perm (reported s revents ++ appended pass)
  /-- When the loop has ended everything has been examined. -/
  all : s'.pc = .poll → (examined pass).Perm (reported s revents ++ appended pass)
  /-- No entry of the poll is examined twice, and none is skipped. -/
  once : ∀ pfd ∈ reported s revents,
    (examined pass).count pfd ≤ 1 ∧ (s'.pc = .poll → (examined pass).count pfd = 1)
  /-- What is done is done for an entry of the poll, with the bits that were reported for it. -/
  handled : ∀ t ∈ pass, t.output ≠ .idle → ∃ pfd ∈ reported s revents, examinedEntry t = some pfd
  /-- At most one entry is appended. -/
  appended : (appended pass).length ≤ 1
  /-- The descriptor of an appended entry is a new one, and nothing is done for it in the pass. -/
  fresh : ∀ pfd ∈ ChatRooms.appended pass, pfd.fd ∉ s.server.pollfds.descriptors ∧
    ∀ t ∈ pass, t.output.client ≠ some pfd.fd

/-- One pass of the loop visits every polled descriptor exactly once.  For every reachable poll set, all
bits that `poll` may report, and all iterations that follow before the next poll, in any order of the
closes, hang-ups, messages and the new connection. -/
theorem pass_visits_once {append : Append} (doc : Documented append) {s₀ s s₁ s' : MainState}
    {trace pass : MainTrace} (h₀ : MainInitial append s₀) (run : Run (MainStep append) s₀ trace s)
    {revents : ℕ → Events} (polled : MainStep append s (.poll revents) .idle s₁)
    (passed : Run (MainStep append) s₁ pass s') (within : ∀ t ∈ pass, ∀ r, t.event ≠ .poll r) :
    Visited s revents pass s' := by
  have h := run.pollSet doc h₀
  have hpolled := InPass.start_of_poll h polled
  obtain ⟨hpass, hexamines⟩ := hpolled.run doc passed within
  have hentries : s₁.server.pollfds.entries = reported s revents := by
    cases polled with
    | poll _ pc => exact PollfdArray.entries_report _ _
  have hfds : s₁.server.pollfds.descriptors = s.server.pollfds.descriptors := by
    cases polled with
    | poll _ pc => exact PollfdArray.descriptors_report _ _
  have hleft : ∀ i, s'.pc = .entry i →
      (examined pass ++ s'.server.pollfds.entries.drop i).Perm (reported s revents ++ appended pass) := by
    intro i hpc
    rw [← hentries]
    exact (hpass.rest i hpc).2
  have hall : s'.pc = .poll → (examined pass).Perm (reported s revents ++ appended pass) := by
    intro hpc
    rw [← hentries]
    exact hpass.done hpc
  obtain ⟨rest, hrest⟩ : ∃ rest, (examined pass ++ rest).Perm (reported s revents ++ appended pass) := by
    cases hpc : s'.pc with
    | poll => exact ⟨[], by rw [List.append_nil]; exact hall hpc⟩
    | entry i => exact ⟨_, hleft i hpc⟩
  have hcount : ∀ pfd ∈ reported s revents, (reported s revents ++ appended pass).count pfd = 1 := by
    intro pfd hmem
    rw [← hentries] at hmem ⊢
    exact hpass.count_eq_one hpolled.pollSet hmem
  refine ⟨?_, hleft, hall, fun pfd hmem => ⟨?_, fun hpc => ?_⟩, fun t ht hbusy => ?_, hpass.length,
    fun pfd hadded => ⟨?_, fun t ht hclient => ?_⟩⟩
  · have hlen := hrest.length_eq
    have hreported : (reported s revents).length = s.server.pollfds.len :=
      List.length_mapIdx.trans h.wf.length_entries
    have hone := hpass.length
    rw [List.length_append, List.length_append, hreported] at hlen
    rw [iterations_eq passed]
    omega
  · rw [← hcount pfd hmem, ← hrest.count_eq, List.count_append]
    exact Nat.le_add_right _ _
  · rw [(hall hpc).count_eq, hcount pfd hmem]
  · rw [← hentries]
    exact (hexamines t ht).entry hbusy
  · rw [← hfds]
    exact (hpass.fresh pfd hadded).2
  · exact (hpass.fresh pfd hadded).2 ((hexamines t ht).client _ hclient)

set_option maxRecDepth 5000 in
/-- Three clients have connected.  In one pass a fourth one connects and the first and the third one hang up: the new
entry comes to the index of the first one and is reached there, and the third one is the last when it goes. -/
theorem pass_visits_once_hangups : ∃ s trace revents s₁ pass s', Run (MainStep documentedAppend) (.start 3) trace s ∧
    s.server.pollfds.descriptors = [3, 4, 5, 6] ∧ MainStep documentedAppend s (.poll revents) .idle s₁ ∧
    Run (MainStep documentedAppend) s₁ pass s' ∧ s'.pc = .poll ∧ s'.server.pollfds.descriptors = [3, 7, 5] ∧
    examined pass = [⟨3, pollin, pollin⟩, ⟨4, pollin, pollhup⟩, ⟨7, pollin, 0⟩, ⟨5, pollin, 0⟩, ⟨6, pollin, pollhup⟩] ∧
    Visited s revents pass s' := by
  have run : Run (MainStep documentedAppend) (.start 3) [] _ := .start
  have run := run.turn (.poll (fun _ => pollin) rfl)
  have run := run.turn (.turn 0 ⟨.steady 0, .steady 4, some 4⟩ rfl (by decide) (.of_notMem (by decide)) rfl)
  have run := run.turn (.turn 1 ⟨.steady 0, .steady 4, none⟩ rfl (by decide) .none rfl)
  have run := run.turn (.endPass 2 rfl (by decide))
  have run := run.turn (.poll (fun i => if i = 0 then pollin else 0) rfl)
  have run := run.turn (.turn 0 ⟨.steady 0, .steady 4, some 5⟩ rfl (by decide) (.of_notMem (by decide)) rfl)
  have run := run.turn (.turn 1 ⟨.steady 0, .steady 4, none⟩ rfl (by decide) .none rfl)
  have run := run.turn (.turn 2 ⟨.steady 0, .steady 4, none⟩ rfl (by decide) .none rfl)
  have run := run.turn (.endPass 3 rfl (by decide))
  have run := run.turn (.poll (fun i => if i = 0 then pollin else 0) rfl)
  have run := run.turn (.turn 0 ⟨.steady 0, .steady 4, some 6⟩ rfl (by decide) (.of_notMem (by decide)) rfl)
  have run := run.turn (.turn 1 ⟨.steady 0, .steady 4, none⟩ rfl (by decide) .none rfl)
  have run := run.turn (.turn 2 ⟨.steady 0, .steady 4, none⟩ rfl (by decide) .none rfl)
  have run := run.turn (.turn 3 ⟨.steady 0, .steady 4, none⟩ rfl (by decide) .none rfl)
  have run := run.turn (.endPass 4 rfl (by decide))
  have poll (revents : ℕ → Events) {trace : MainTrace} {s : MainState}
      (_ : Run (MainStep documentedAppend) (.start 3) trace s) (hpc : s.pc = .poll) :
      MainStep documentedAppend s (.poll revents) .idle
        { s with server := { s.server with pollfds := s.server.pollfds.report revents }, pc := .entry 0 } :=
    .poll revents hpc
  have start {s s₁ : MainState} {event : MainEvent} (_ : MainStep documentedAppend s event .idle s₁) :
      Run (MainStep documentedAppend) s₁ [] s₁ := .start
  have polled := poll (fun i => if i = 0 then pollin else if i = 2 then 0 else pollhup) run rfl
  have pass := start polled
  have pass := pass.turn (.turn 0 ⟨.steady 0, .steady 4, some 7⟩ rfl (by decide) (.of_notMem (by decide)) rfl)
  have pass := pass.turn (.turn 1 ⟨.steady 0, .steady 4, none⟩ rfl (by decide) .none rfl)
  have pass := pass.turn (.turn 1 ⟨.steady 0, .steady 4, none⟩ rfl (by decide) .none rfl)
  have pass := pass.turn (.turn 2 ⟨.steady 0, .steady 4, none⟩ rfl (by decide) .none rfl)
  have shown {s₁ s : MainState} {trace : MainTrace} (run : Run (MainStep documentedAppend) s₁ trace s)
      (pollfds : PollfdArray) (h : s.server.pollfds = pollfds) :
      Run (MainStep documentedAppend) s₁ trace { s with server := { s.server with pollfds } } := by
    subst h
    exact run
  have pass := shown pass
    ⟨[⟨3, pollin, pollin⟩, ⟨7, pollin, 0⟩, ⟨5, pollin, 0⟩, ⟨6, pollin, pollhup⟩, ⟨7, pollin, 0⟩], 4, 5⟩ rfl
  have pass := pass.turn (.turn 3 ⟨.steady 0, .steady 4, none⟩ rfl (by decide) .none rfl)
  have pass := pass.turn (.endPass 3 rfl (by decide))
  refine ⟨_, _, _, _, _, _, run, rfl, polled, pass, rfl, rfl, rfl, pass_visits_once documentedAppend_documented
    (MainState.start_documented (by decide)) run polled pass fun t ht r => ?_⟩
  simp only [List.nil_append, List.mem_append, List.mem_singleton] at ht
  rcases ht with ((((rfl | rfl) | rfl) | rfl) | rfl) | rfl <;> simp

end ChatRooms
