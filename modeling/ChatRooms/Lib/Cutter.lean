import ChatRooms.Lib.Run

/-!
# Cutting a sequence into units

A reader takes units off the front of a sequence that keeps growing at its back: frames with a length
in front, lines up to a newline.  A `Cutter` says how long the first unit is once all of it is there,
and that what follows does not change this.

* `Cutter.units` are the units that are complete;
* `Cutter.Takes` relates a sequence, what arrived behind it, what is left of it and the units taken;
* `Run.takes` carries this over a run whose turns add at the back and take units off the front;
* `Cutter.Takes.units_isPrefix`: whatever arrives, the units of the start have been taken or are left.
-/

namespace ChatRooms

variable {α : Type}

/-- A rule for the length of the first unit; `none` as long as the unit is not complete. -/
structure Cutter (α : Type) where
  head : List α → Option ℕ
  bounds : ∀ {l : List α} {n : ℕ}, head l = some n → 0 < n ∧ n ≤ l.length
  stable : ∀ {l : List α} {n : ℕ} (more : List α), head l = some n → head (l ++ more) = some n

namespace Cutter

variable (c : Cutter α)

/-- The complete units of a sequence, in order. -/
def units (l : List α) : List (List α) :=
  match _h : c.head l with
  | none => []
  | some n => l.take n :: units (l.drop n)
termination_by l.length
decreasing_by
  have := c.bounds _h
  rw [List.length_drop]
  omega

theorem units_of_none {l : List α} (h : c.head l = none) : c.units l = [] := by
  rw [units]
  split
  · rfl
  · rename_i hsome
    cases h.symm.trans hsome

theorem units_of_some {l : List α} {n : ℕ} (h : c.head l = some n) :
    c.units l = l.take n :: c.units (l.drop n) := by
  rw [units]
  split
  · rename_i hnone
    cases h.symm.trans hnone
  · rename_i m hsome
    rw [h, Option.some.injEq] at hsome
    rw [hsome]

theorem units_eq_nil {l : List α} : c.units l = [] ↔ c.head l = none := by
  cases h : c.head l with
  | none => simp [c.units_of_none h]
  | some n => simp [c.units_of_some h]

/-- The first unit stays where it is when more arrives. -/
theorem units_append_of_some {l : List α} {n : ℕ} (h : c.head l = some n) (more : List α) :
    c.units (l ++ more) = l.take n :: c.units (l.drop n ++ more) := by
  have hn := (c.bounds h).2
  rw [c.units_of_some (c.stable more h), List.take_append_of_le_length hn,
    List.drop_append_of_le_length hn]

theorem units_isPrefix (l more : List α) : c.units l <+: c.units (l ++ more) := by
  cases h : c.head l with
  | none =>
    rw [c.units_of_none h]
    exact List.nil_prefix
  | some n =>
    rw [c.units_of_some h, c.units_append_of_some h]
    exact List.prefix_cons_inj _ |>.2 (units_isPrefix (l.drop n) more)
termination_by l.length
decreasing_by
  have := c.bounds h
  rw [List.length_drop]
  omega

/-! ## Taking units -/

/-- From `before`, behind which `arrived` came, the units `taken` were taken and `after` is left:
whatever comes next is cut as if nothing had been taken yet. -/
def Takes (before arrived after : List α) (taken : List (List α)) : Prop :=
  ∀ more, c.units (before ++ (arrived ++ more)) = taken ++ c.units (after ++ more)

variable {c}

theorem Takes.refl (l : List α) : c.Takes l [] l [] := fun _ => rfl

theorem Takes.arrive (l arrived : List α) : c.Takes l arrived (l ++ arrived) [] := by
  intro more
  rw [List.nil_append, List.append_assoc]

theorem Takes.unit {l : List α} {n : ℕ} (h : c.head l = some n) :
    c.Takes l [] (l.drop n) [l.take n] :=
  fun more => c.units_append_of_some h more

theorem Takes.trans {l₁ l₂ l₃ a₁ a₂ : List α} {u₁ u₂ : List (List α)} (h₁ : c.Takes l₁ a₁ l₂ u₁)
    (h₂ : c.Takes l₂ a₂ l₃ u₂) : c.Takes l₁ (a₁ ++ a₂) l₃ (u₁ ++ u₂) := by
  intro more
  rw [List.append_assoc, h₁ (a₂ ++ more), h₂ more, List.append_assoc]

/-- The units of the start have been taken or are left. -/
theorem Takes.units_isPrefix {before arrived after : List α} {taken : List (List α)}
    (h : c.Takes before arrived after taken) : c.units before <+: taken ++ c.units after := by
  have hall := h []
  rw [List.append_nil, List.append_nil] at hall
  rw [← hall]
  exact c.units_isPrefix before arrived

/-- A unit that is left or taken is one of the sequence with everything that arrived. -/
theorem Takes.units_eq {before arrived after : List α} {taken : List (List α)}
    (h : c.Takes before arrived after taken) : c.units (before ++ arrived) = taken ++ c.units after := by
  have hall := h []
  rwa [List.append_nil, List.append_nil] at hall

end Cutter

/-- A run whose turns add at the back of a sequence and take units off its front. -/
theorem Run.takes {σ ε ω : Type} {Step : σ → ε → ω → σ → Prop} {s₀ s : σ}
    {trace : List (ChatRooms.Turn σ ε ω)} (run : Run Step s₀ trace s) (c : Cutter α)
    (sequence : σ → List α) (arrived : ChatRooms.Turn σ ε ω → List α)
    (taken : ChatRooms.Turn σ ε ω → List (List α))
    (hstep : ∀ t ∈ trace, Step t.before t.event t.output t.after →
      c.Takes (sequence t.before) (arrived t) (sequence t.after) (taken t)) :
    c.Takes (sequence s₀) (trace.flatMap arrived) (sequence s) (trace.flatMap taken) := by
  induction run with
  | start => exact .refl _
  | @turn trace s s' e o run step ih =>
    have hlast : (⟨s, e, o, s'⟩ : ChatRooms.Turn σ ε ω) ∈ trace ++ [⟨s, e, o, s'⟩] :=
      List.mem_append_right _ List.mem_cons_self
    have hbefore := ih fun t ht => hstep t (List.mem_append_left _ ht)
    rw [List.flatMap_append, List.flatMap_append, List.flatMap_singleton, List.flatMap_singleton]
    exact hbefore.trans (hstep _ hlast step)

end ChatRooms
