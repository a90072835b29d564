import ChatRooms.Lib.Memory

/-!
# Computations with a log

A checked computation together with what it noted on its way to its end, or to the fault that ended it.
The result does not depend on the notes, so a program is instrumented by writing it once more with
notes: `result_bind` and its companions show that forgetting the log gives the program back, and
`all_bind` takes a property of all notes apart along the program.
-/

namespace ChatRooms

/-- A computation and its notes, in order. -/
structure Logged (κ α : Type) where
  result : Checked α
  log : List κ

namespace Logged

variable {κ α β : Type}

instance : Monad (Logged κ) where
  pure a := ⟨.ok a, []⟩
  bind x f :=
    match x.result with
    | .ok a => ⟨(f a).result, x.log ++ (f a).log⟩
    | .error e => ⟨.error e, x.log⟩

/-- A computation that notes nothing. -/
def silent (x : Checked α) : Logged κ α := ⟨x, []⟩

/-- A computation that begins with a note. -/
def note (entry : κ) (x : Checked α) : Logged κ α := ⟨x, [entry]⟩

theorem ok_bind (a : α) (log : List κ) (f : α → Logged κ β) :
    (⟨.ok a, log⟩ : Logged κ α) >>= f = ⟨(f a).result, log ++ (f a).log⟩ := rfl

theorem silent_ok_bind (a : α) (f : α → Logged κ β) : silent (.ok a) >>= f = f a := rfl

/-- What is made of the result of a computation is not noted. -/
theorem bind_pure (x : Logged κ α) (g : α → β) :
    (x >>= fun a => pure (g a)) = ⟨x.result >>= fun a => .ok (g a), x.log⟩ := by
  obtain ⟨result, log⟩ := x
  cases result with
  | ok a =>
    change (⟨.ok (g a), log ++ []⟩ : Logged κ β) = ⟨.ok (g a), log⟩
    rw [List.append_nil]
  | error e => rfl

/-! ## Forgetting the log -/

theorem result_note (entry : κ) (x : Checked α) : (note entry x).result = x := rfl

theorem result_bind (x : Logged κ α) (f : α → Logged κ β) :
    (x >>= f).result = x.result >>= fun a => (f a).result := by
  obtain ⟨result, log⟩ := x
  cases result with
  | ok a => rfl
  | error e => rfl

/-- A sequence with notes is the sequence without them, part by part. -/
theorem result_bind_eq {x : Logged κ α} {y : Checked α} {f : α → Logged κ β} {g : α → Checked β}
    (hx : x.result = y) (hf : ∀ a, (f a).result = g a) : (x >>= f).result = y >>= g := by
  rw [result_bind, hx]
  exact congrArg (y >>= ·) (funext hf)

/-- The notes of the first part of a sequence come first. -/
theorem log_isPrefix_bind (x : Logged κ α) (f : α → Logged κ β) : x.log <+: (x >>= f).log := by
  obtain ⟨result, log⟩ := x
  cases result with
  | ok a => exact List.prefix_append _ _
  | error e => exact List.prefix_refl _

/-! ## Properties of the notes -/

/-- Every note has the property. -/
def All (P : κ → Prop) (x : Logged κ α) : Prop := ∀ entry ∈ x.log, P entry

variable {P : κ → Prop}

@[simp] theorem all_pure (a : α) : All P (pure a : Logged κ α) := List.forall_mem_nil P

@[simp] theorem all_silent (x : Checked α) : All P (silent x) := List.forall_mem_nil P

@[simp] theorem all_note {entry : κ} {x : Checked α} : All P (note entry x) ↔ P entry :=
  List.forall_mem_singleton

/-- The notes of a sequence are those of its first part, and those of the second part on what the first
returned. -/
theorem all_bind {x : Logged κ α} {f : α → Logged κ β} :
    All P (x >>= f) ↔ All P x ∧ ∀ a, x.result = .ok a → All P (f a) := by
  obtain ⟨result, log⟩ := x
  cases result with
  | ok a =>
    change (∀ entry ∈ log ++ (f a).log, P entry) ↔ _
    rw [List.forall_mem_append]
    simp [All]
  | error e =>
    change (∀ entry ∈ log, P entry) ↔ _
    simp [All]

/-- Notes behind a part that has none. -/
theorem all_silent_bind {x : Checked α} {f : α → Logged κ β} (h : ∀ a, x = .ok a → All P (f a)) :
    All P (silent x >>= f) :=
  all_bind.2 ⟨all_silent x, h⟩

end Logged

end ChatRooms
