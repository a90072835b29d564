import Mathlib.Tactic.Common

/-!
# Pipes

A writer puts coded units into a pipe, one after another, and a reader takes whole units out of it.  `Carries`
is the conservation law of such a pipe: the units that were written are those that have been read and those
whose codes are in the pipe, in this order.
-/

namespace ChatRooms

variable {α β : Type}

/-- Behind the units that have been read, the pipe holds the codes of the rest of those written. -/
def Carries (code : α → List β) (written read : List α) (pipe : List β) : Prop :=
  ∃ rest, written = read ++ rest ∧ pipe = rest.flatMap code

namespace Carries

variable {code : α → List β} {written read : List α} {pipe : List β}

theorem nil (code : α → List β) : Carries code [] [] [] := ⟨[], rfl, rfl⟩

theorem write (h : Carries code written read pipe) (units : List α) :
    Carries code (written ++ units) read (pipe ++ units.flatMap code) := by
  obtain ⟨rest, rfl, rfl⟩ := h
  exact ⟨rest ++ units, List.append_assoc _ _ _, by simp⟩

/-- A unit at the front of the pipe is read. -/
theorem read_unit {unit : α} {rest : List α} (hwritten : written = read ++ unit :: rest)
    (hpipe : code unit ++ pipe = (unit :: rest).flatMap code) : Carries code written (read ++ [unit]) pipe := by
  refine ⟨rest, by simp [hwritten], ?_⟩
  rw [List.flatMap_cons] at hpipe
  exact List.append_cancel_left hpipe

theorem isPrefix (h : Carries code written read pipe) : read <+: written := by
  obtain ⟨rest, rfl, -⟩ := h
  exact List.prefix_append _ _

/-- When the pipe is empty, everything has been read. -/
theorem eq_of_empty (h : Carries code written read []) (hcode : ∀ unit ∈ written, code unit ≠ []) :
    read = written := by
  obtain ⟨rest, rfl, hpipe⟩ := h
  cases rest with
  | nil => simp
  | cons unit rest =>
    have hnil : code unit = [] := by simp_all
    exact absurd hnil (hcode unit (by simp))

end Carries

end ChatRooms
