import Mathlib.Data.List.Induction
import Mathlib.Tactic.Common

/-!
# Runs of a system

A system is a relation `Step s e o s'`: in state `s` the event `e` produces the output `o` and leads
to `s'`.  A `Run` is a finite sequence of steps with its trace, the list of its turns in order.

* `Run.append` and `Run.split` put runs together and take them apart;
* `Run.invariant` is the induction over a run: what every turn of the trace preserves, a run
  preserves.
-/

namespace ChatRooms

/-- One step of a run, with the states around it. -/
structure Turn (σ ε ω : Type) where
  before : σ
  event : ε
  output : ω
  after : σ

variable {σ ε ω : Type} {Step : σ → ε → ω → σ → Prop}

/-- The sequences of steps from a state, with their traces. -/
inductive Run (Step : σ → ε → ω → σ → Prop) (start : σ) : List (Turn σ ε ω) → σ → Prop
  | start : Run Step start [] start
  | turn {trace : List (Turn σ ε ω)} {s s' : σ} {e : ε} {o : ω} (run : Run Step start trace s)
      (step : Step s e o s') : Run Step start (trace ++ [⟨s, e, o, s'⟩]) s'

namespace Run

variable {s₀ s s' : σ} {trace trace' : List (Turn σ ε ω)}

theorem append (h : Run Step s₀ trace s) (h' : Run Step s trace' s') :
    Run Step s₀ (trace ++ trace') s' := by
  induction h' with
  | start => rwa [List.append_nil]
  | turn _ step ih =>
    rw [← List.append_assoc]
    exact ih.turn step

theorem split (pre post : List (Turn σ ε ω)) (h : Run Step s₀ trace s) (htrace : trace = pre ++ post) :
    ∃ mid, Run Step s₀ pre mid ∧ Run Step mid post s := by
  induction h generalizing post with
  | start =>
    obtain ⟨rfl, rfl⟩ := List.append_eq_nil_iff.1 htrace.symm
    exact ⟨s₀, .start, .start⟩
  | @turn trace s s' e o run step ih =>
    cases post using List.reverseRecOn with
    | nil =>
      rw [List.append_nil] at htrace
      subst htrace
      exact ⟨s', run.turn step, .start⟩
    | append_singleton post t =>
      rw [← List.append_assoc] at htrace
      obtain ⟨hpre, ht⟩ := List.append_inj' htrace rfl
      obtain rfl := List.singleton_inj.1 ht
      obtain ⟨mid, hmid, hrest⟩ := ih post hpre
      exact ⟨mid, hmid, hrest.turn step⟩

/-- The run of no step. -/
theorem eq_of_nil (h : Run Step s [] s') : s' = s := by
  generalize htrace : ([] : List (Turn σ ε ω)) = trace at h
  cases h with
  | start => rfl
  | turn _ _ => exact absurd (congrArg List.length htrace) (by simp)

/-- The run of one step. -/
theorem step_of_singleton {t : Turn σ ε ω} (h : Run Step s [t] s') :
    t.before = s ∧ t.after = s' ∧ Step s t.event t.output s' := by
  generalize htrace : [t] = trace at h
  cases h with
  | start => cases htrace
  | @turn trace m _ e o run step =>
    obtain ⟨hnil, ht⟩ := List.append_inj' (show [] ++ [t] = _ from htrace) rfl
    subst hnil
    obtain rfl := List.singleton_inj.1 ht
    obtain rfl := run.eq_of_nil
    exact ⟨rfl, rfl, step⟩

/-- A turn of a run is a step from the state that the turns before it lead to, to the state that the
turns behind it start from. -/
theorem turn_at {pre post : List (Turn σ ε ω)} {t : Turn σ ε ω} (h : Run Step s₀ trace s)
    (htrace : trace = pre ++ t :: post) :
    Run Step s₀ pre t.before ∧ Step t.before t.event t.output t.after ∧ Run Step t.after post s := by
  obtain ⟨mid, hpre, hpost⟩ := h.split pre (t :: post) htrace
  obtain ⟨mid', hturn, hrest⟩ := hpost.split [t] post rfl
  obtain ⟨rfl, rfl, hstep⟩ := hturn.step_of_singleton
  exact ⟨hpre, hstep, hrest⟩

/-- What holds of the turns before holds of all when it holds of the last. -/
theorem forall_concat {P : Turn σ ε ω → Prop} {t : Turn σ ε ω} (h : ∀ u ∈ trace, P u) (ht : P t) :
    ∀ u ∈ trace ++ [t], P u :=
  List.forall_mem_append.2 ⟨h, List.forall_mem_singleton.2 ht⟩

/-- What holds at the start and is preserved by every turn of the trace holds at the end. -/
theorem invariant (Inv : σ → Prop) (h : Run Step s₀ trace s) (h0 : Inv s₀)
    (hstep : ∀ t ∈ trace, Step t.before t.event t.output t.after → Inv t.before → Inv t.after) :
    Inv s := by
  induction h with
  | start => exact h0
  | @turn trace s s' e o run step ih =>
    have hlast : (⟨s, e, o, s'⟩ : Turn σ ε ω) ∈ trace ++ [⟨s, e, o, s'⟩] :=
      List.mem_append_right _ List.mem_cons_self
    exact hstep _ hlast step (ih fun t ht => hstep t (List.mem_append_left _ ht))

end Run

end ChatRooms
