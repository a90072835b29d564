import Mathlib.Data.List.Perm.Basic
import Mathlib.Tactic.Common

/-!
# Removal by swapping in the last element

An array of which the first `n` cells are in use loses the element at index `i` by overwriting cell
`i` with cell `n - 1` and decrementing `n`.  On the list of used cells this is `swapRemove`: the
element at `i` goes, every other element stays, and only the last one moves.
-/

namespace ChatRooms

variable {α : Type}

/-- The list without its element at index `i`, the last element having taken its place. -/
def swapRemove (l : List α) (i : ℕ) : List α :=
  match l.getLast? with
  | none => []
  | some x => (l.set i x).dropLast

theorem swapRemove_concat (l : List α) (x : α) (i : ℕ) :
    swapRemove (l ++ [x]) i = l.set i x := by
  have hx : ∀ k, [x].set k x = [x] := by
    rintro (_ | k) <;> rfl
  rw [swapRemove, List.getLast?_concat]
  dsimp only
  by_cases h : i < l.length
  · rw [List.set_append_left _ _ h, List.dropLast_concat]
  · rw [List.set_append_right _ _ (by omega), hx, List.dropLast_concat,
      List.set_eq_of_length_le (by omega)]

theorem exists_concat_of_lt {l : List α} {i : ℕ} (h : i < l.length) : ∃ l' x, l = l' ++ [x] :=
  ⟨l.dropLast, l.getLast (List.ne_nil_of_length_pos (by omega)),
    (List.dropLast_append_getLast _).symm⟩

theorem map_swapRemove {β : Type} (f : α → β) {l : List α} {i : ℕ} (h : i < l.length) :
    (swapRemove l i).map f = swapRemove (l.map f) i := by
  obtain ⟨l, x, rfl⟩ := exists_concat_of_lt h
  rw [List.map_append, List.map_singleton, swapRemove_concat, swapRemove_concat, List.map_set]

/-- A removal behind the first element leaves it in its place. -/
theorem swapRemove_cons_succ (a : α) {l : List α} {i : ℕ} (h : i < l.length) :
    swapRemove (a :: l) (i + 1) = a :: swapRemove l i := by
  obtain ⟨l, x, rfl⟩ := exists_concat_of_lt h
  rw [← List.cons_append, swapRemove_concat, swapRemove_concat, List.set_cons_succ]

/-- What is removed and what is left are together the list. -/
theorem cons_swapRemove_perm {l : List α} {i : ℕ} (h : i < l.length) :
    (l[i] :: swapRemove l i).Perm l := by
  obtain ⟨l, x, rfl⟩ := exists_concat_of_lt h
  rw [swapRemove_concat]
  by_cases hi : i < l.length
  · rw [List.getElem_append_left hi]
    -- Setting cell `i` of `l` drops `l[i]` and adds the last element.
    have hset : (l.set i x).Perm (x :: l.eraseIdx i) := by
      rw [List.set_eq_take_cons_drop x hi, List.eraseIdx_eq_take_drop_succ]
      exact List.perm_middle
    have hl : (l[i] :: l.eraseIdx i).Perm l := List.getElem_cons_eraseIdx_perm hi
    calc (l[i] :: l.set i x).Perm (l[i] :: x :: l.eraseIdx i) := hset.cons _
      _ |>.Perm (x :: l[i] :: l.eraseIdx i) := List.Perm.swap _ _ _
      _ |>.Perm (x :: l) := hl.cons x
      _ |>.Perm (l ++ [x]) := (List.perm_append_singleton x l).symm
  · have hlast : i = l.length := by
      rw [List.length_append, List.length_singleton] at h
      omega
    subst hlast
    rw [List.getElem_append_right (Nat.le_refl _), List.set_eq_of_length_le (Nat.le_refl _)]
    simpa using (List.perm_append_singleton x l).symm

/-- A walk that removes at its index: what was there and what is left from the index on are together
what was left before. -/
theorem cons_drop_swapRemove_perm {l : List α} {i : ℕ} (h : i < l.length) :
    (l[i] :: (swapRemove l i).drop i).Perm (l.drop i) := by
  obtain ⟨l, x, rfl⟩ := exists_concat_of_lt h
  rw [swapRemove_concat]
  by_cases hi : i < l.length
  · have hset : (l.set i x).drop i = x :: l.drop (i + 1) := by
      rw [List.drop_eq_getElem_cons (by rwa [List.length_set]), List.getElem_set_self,
        List.drop_set_of_lt (Nat.lt_succ_self i)]
    rw [List.getElem_append_left hi, hset, List.drop_append_of_le_length (Nat.le_of_lt hi),
      List.drop_eq_getElem_cons hi, List.cons_append]
    exact (List.perm_append_singleton x _).symm.cons _
  · have hlast : i = l.length := by
      rw [List.length_append, List.length_singleton] at h
      omega
    subst hlast
    rw [List.getElem_append_right (Nat.le_refl _), List.set_eq_of_length_le (Nat.le_refl _),
      List.drop_length, List.drop_left]
    simp

/-- On an array of which the first `n` cells are used. -/
theorem take_set_last {v : List α} {n i : ℕ} (hlast : n - 1 < v.length) (hi : i < n) :
    (v.set i v[n - 1]).take (n - 1) = swapRemove (v.take n) i := by
  have hcut : v.take n = v.take (n - 1) ++ [v[n - 1]] := by
    rw [List.take_append_getElem hlast]
    congr 1
    omega
  rw [hcut, swapRemove_concat, List.take_set]

end ChatRooms
