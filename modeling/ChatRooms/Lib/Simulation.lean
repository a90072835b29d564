import ChatRooms.Lib.Run

/-!
# Simulation

A concrete system is simulated by an abstract one when a relation between their states is kept: for every
step of the concrete system the abstract one has a run, of any number of steps, between related states, and
what is seen of both matches.  `Simulation.run` carries this from steps to runs.  Where the relation is about
the histories too, `Run.simulated_from` is the induction.
-/

namespace ChatRooms

/-- What is seen of a trace: the events and the outputs. -/
def labels {σ ε ω : Type} (trace : List (Turn σ ε ω)) : List (ε × ω) := trace.map fun t => (t.event, t.output)

@[simp] theorem labels_append {σ ε ω : Type} (trace trace' : List (Turn σ ε ω)) :
    labels (trace ++ trace') = labels trace ++ labels trace' := List.map_append

/-- The second list consists of parts, each of which matches an element of the first. -/
inductive PartsMatch {α β : Type} (Match : α → List β → Prop) : List α → List β → Prop
  | nil : PartsMatch Match [] []
  | concat {as : List α} {bs bs' : List β} {a : α} (init : PartsMatch Match as bs) (last : Match a bs') :
      PartsMatch Match (as ++ [a]) (bs ++ bs')

theorem PartsMatch.eq_of_singletons {α : Type} {as bs : List α}
    (h : PartsMatch (fun a part => part = [a]) as bs) : bs = as := by
  induction h with
  | nil => rfl
  | concat init last ih => rw [ih, last]

/-- What is in the second list is in the part of an element of the first. -/
theorem PartsMatch.exists_of_mem {α β : Type} {Match : α → List β → Prop} {as : List α} {bs : List β}
    (h : PartsMatch Match as bs) {b : β} (hb : b ∈ bs) : ∃ a ∈ as, ∃ part, Match a part ∧ b ∈ part := by
  induction h with
  | nil => cases hb
  | concat init last ih =>
    rcases List.mem_append.1 hb with hb | hb
    · obtain ⟨a, ha, hpart⟩ := ih hb
      exact ⟨a, List.mem_append_left _ ha, hpart⟩
    · exact ⟨_, List.mem_append_right _ List.mem_cons_self, _, last, hb⟩

section

variable {σ ε ω τ δ υ : Type} {StepC : σ → ε → ω → σ → Prop} {StepA : τ → δ → υ → τ → Prop}
  {Rel : σ → τ → Prop} {Match : ε × ω → List (δ × υ) → Prop}

/-- Every concrete step between related states is matched by a run of the abstract system. -/
def Simulation (StepC : σ → ε → ω → σ → Prop) (StepA : τ → δ → υ → τ → Prop) (Rel : σ → τ → Prop)
    (Match : ε × ω → List (δ × υ) → Prop) : Prop :=
  ∀ ⦃c c' : σ⦄ ⦃a : τ⦄ ⦃e : ε⦄ ⦃o : ω⦄, Rel c a → StepC c e o c' →
    ∃ trace a', Run StepA a trace a' ∧ Match (e, o) (labels trace) ∧ Rel c' a'

/-- A relation between the histories of two systems that every concrete step extends is kept by every run that goes
on from such histories, and every turn is matched by its part of the abstract run. -/
theorem Run.simulated_from {R : List (Turn σ ε ω) → σ → List (Turn τ δ υ) → τ → Prop}
    {M : Turn σ ε ω → List (Turn τ δ υ) → Prop} {past trace : List (Turn σ ε ω)} {before : List (Turn τ δ υ)}
    {s₀ s : σ} {a₀ : τ} (run : Run StepC s₀ trace s) (h₀ : R past s₀ before a₀)
    (hstep : ∀ ⦃trace trace' a t⦄, R trace t.before trace' a → StepC t.before t.event t.output t.after →
      ∃ part a', Run StepA a part a' ∧ M t part ∧ R (trace ++ [t]) t.after (trace' ++ part) a') :
    ∃ trace' a, Run StepA a₀ trace' a ∧ PartsMatch M trace trace' ∧
      R (past ++ trace) s (before ++ trace') a := by
  induction run with
  | start =>
    refine ⟨[], a₀, .start, .nil, ?_⟩
    rwa [List.append_nil, List.append_nil]
  | @turn trace s s' e o run step ih =>
    obtain ⟨trace', a, run', hparts, hrel⟩ := ih
    obtain ⟨part, a', hpart, hmatch, hrel'⟩ := hstep (t := ⟨s, e, o, s'⟩) hrel step
    refine ⟨trace' ++ part, a', run'.append hpart, hparts.concat hmatch, ?_⟩
    rwa [← List.append_assoc, ← List.append_assoc]

/-- The same without a past, and without parts. -/
theorem Run.simulated {R : List (Turn σ ε ω) → σ → List (Turn τ δ υ) → τ → Prop} {s₀ s : σ} {a₀ : τ}
    {trace : List (Turn σ ε ω)} (run : Run StepC s₀ trace s) (h₀ : R [] s₀ [] a₀)
    (hstep : ∀ ⦃trace trace' a t⦄, R trace t.before trace' a → StepC t.before t.event t.output t.after →
      ∃ part a', Run StepA a part a' ∧ R (trace ++ [t]) t.after (trace' ++ part) a') :
    ∃ trace' a, Run StepA a₀ trace' a ∧ R trace s trace' a := by
  obtain ⟨trace', a, run', -, hrel⟩ := run.simulated_from (M := fun _ _ => True) h₀
    fun trace trace' a t hrel step => by
      obtain ⟨part, a', hpart, hrel'⟩ := hstep hrel step
      exact ⟨part, a', hpart, trivial, hrel'⟩
  exact ⟨trace', a, run', hrel⟩

/-- Every concrete run is matched by a run of the abstract system. -/
theorem Simulation.run (h : Simulation StepC StepA Rel Match) {c₀ c : σ} {a₀ : τ} {trace : List (Turn σ ε ω)}
    (h₀ : Rel c₀ a₀) (run : Run StepC c₀ trace c) :
    ∃ trace' a, Run StepA a₀ trace' a ∧ PartsMatch Match (labels trace) (labels trace') ∧ Rel c a := by
  apply run.simulated (R := fun trace c trace' a => PartsMatch Match (labels trace) (labels trace') ∧ Rel c a)
    ⟨.nil, h₀⟩
  intro trace trace' a t hrel step
  obtain ⟨part, a', hpart, hlast, hrel'⟩ := h hrel.2 step
  refine ⟨part, a', hpart, ?_, hrel'⟩
  rw [labels_append, labels_append]
  exact hrel.1.concat hlast

/-- A run is one of a smaller system when every turn of its trace is. -/
theorem Run.restrict {Step Step' : σ → ε → ω → σ → Prop} {s₀ s : σ} {trace : List (Turn σ ε ω)}
    (run : Run Step s₀ trace s)
    (h : ∀ t ∈ trace, Step t.before t.event t.output t.after → Step' t.before t.event t.output t.after) :
    Run Step' s₀ trace s := by
  induction run with
  | start => exact .start
  | @turn trace s s' e o run step ih =>
    have hlast : (⟨s, e, o, s'⟩ : Turn σ ε ω) ∈ trace ++ [⟨s, e, o, s'⟩] :=
      List.mem_append_right _ List.mem_cons_self
    exact (ih fun t ht => h t (List.mem_append_left _ ht)).turn (h _ hlast step)

end

end ChatRooms
