import Mathlib.Data.List.Nodup
import Mathlib.Logic.Function.Basic

/-!
# Doubly linked lists

The cells of a doubly linked list are known by their addresses; `Links` holds the two pointer fields of
all cells, each as a function of the address.  Writing through a pointer changes one field at one
address.

* `Seg l p xs q` says that the cells `xs` are linked in this order, between a predecessor `p` and a
  successor `q`; `Seg_append` cuts a list in two.
* `pushFront`, `pushBack` and `unlink` are the three edits, as assignments to the fields.
* `Seg.pushFront`, `Seg.pushBack` and `Seg.unlink` say what they do to a list, and `Seg.congr` that a list
  does not see what happens to other cells.
-/

namespace ChatRooms

/-- The pointer fields of the cells of doubly linked lists; `none` is `NULL`. -/
structure Links (α : Type) where
  next : α → Option α
  prev : α → Option α

namespace Links

variable {α : Type} [DecidableEq α]

/-- `a->next = p` -/
def setNext (l : Links α) (a : α) (p : Option α) : Links α := { l with next := Function.update l.next a p }

/-- `a->prev = p` -/
def setPrev (l : Links α) (a : α) (p : Option α) : Links α := { l with prev := Function.update l.prev a p }

/-- Puts the cell `a` in front of the list with the first cell `head`. -/
def pushFront (l : Links α) (head : Option α) (a : α) : Links α :=
  let l := (l.setNext a head).setPrev a none
  match head with
  | some b => l.setPrev b (some a)
  | none => l

/-- Puts the cell `a` behind the list with the last cell `tail`. -/
def pushBack (l : Links α) (tail a : α) : Links α :=
  ((l.setNext a none).setPrev a (some tail)).setNext tail (some a)

/-- Takes the cell `a` out of its list: its neighbours are linked to each other. -/
def unlink (l : Links α) (a : α) : Links α :=
  let l := match l.prev a with
    | some p => l.setNext p (l.next a)
    | none => l
  match l.next a with
  | some n => l.setPrev n (l.prev a)
  | none => l

@[simp] theorem setNext_next_self (l : Links α) (a : α) (p : Option α) : (l.setNext a p).next a = p :=
  Function.update_self _ _ _

@[simp] theorem setPrev_prev_self (l : Links α) (a : α) (p : Option α) : (l.setPrev a p).prev a = p :=
  Function.update_self _ _ _

theorem setNext_next_of_ne (l : Links α) {a b : α} (p : Option α) (h : b ≠ a) :
    (l.setNext a p).next b = l.next b :=
  Function.update_of_ne h _ _

theorem setPrev_prev_of_ne (l : Links α) {a b : α} (p : Option α) (h : b ≠ a) :
    (l.setPrev a p).prev b = l.prev b :=
  Function.update_of_ne h _ _

@[simp] theorem setNext_prev (l : Links α) (a : α) (p : Option α) : (l.setNext a p).prev = l.prev := rfl

@[simp] theorem setPrev_next (l : Links α) (a : α) (p : Option α) : (l.setPrev a p).next = l.next := rfl

end Links

/-! ## Lists of cells -/

variable {α : Type}

/-- The cells `xs` are linked in this order, behind `p` and in front of `q`. -/
def Seg (l : Links α) : Option α → List α → Option α → Prop
  | _, [], _ => True
  | p, x :: xs, q => l.prev x = p ∧ l.next x = xs.head?.or q ∧ Seg l (some x) xs q

/-- The cells `xs` follow each other through their `next` fields. -/
def Follows (next : α → Option α) : List α → Prop
  | [] => True
  | x :: xs => next x = xs.head? ∧ Follows next xs

/-- A list does not see what happens to other cells. -/
theorem Seg.congr {l l' : Links α} {p q : Option α} {xs : List α} (h : Seg l p xs q)
    (hnext : ∀ x ∈ xs, l'.next x = l.next x) (hprev : ∀ x ∈ xs, l'.prev x = l.prev x) : Seg l' p xs q := by
  induction xs generalizing p with
  | nil => trivial
  | cons x xs ih =>
    obtain ⟨hp, hn, hrest⟩ := h
    refine ⟨?_, ?_, ?_⟩
    · rw [hprev x List.mem_cons_self, hp]
    · rw [hnext x List.mem_cons_self, hn]
    · apply ih hrest
      · exact fun y hy => hnext y (List.mem_cons_of_mem _ hy)
      · exact fun y hy => hprev y (List.mem_cons_of_mem _ hy)

theorem Follows.congr {next next' : α → Option α} {xs : List α} (h : Follows next xs)
    (hnext : ∀ x ∈ xs, next' x = next x) : Follows next' xs := by
  induction xs with
  | nil => trivial
  | cons x xs ih =>
    refine ⟨?_, ih h.2 fun y hy => hnext y (List.mem_cons_of_mem _ hy)⟩
    rw [hnext x List.mem_cons_self, h.1]

theorem Seg.follows {l : Links α} {p : Option α} {xs : List α} (h : Seg l p xs none) :
    Follows l.next xs := by
  induction xs generalizing p with
  | nil => trivial
  | cons x xs ih =>
    refine ⟨?_, ih h.2.2⟩
    rw [h.2.1, Option.or_none]

/-- A list cut in two: the last cell of the front part and the first cell of the back part know each
other. -/
theorem Seg_append {l : Links α} {p q : Option α} {xs ys : List α} :
    Seg l p (xs ++ ys) q ↔ Seg l p xs (ys.head?.or q) ∧ Seg l (xs.getLast?.or p) ys q := by
  induction xs generalizing p with
  | nil => simp [Seg]
  | cons x xs ih =>
    have hlast : ((x :: xs).getLast?.or p) = xs.getLast?.or (some x) := by
      rw [List.getLast?_cons]
      cases xs.getLast? <;> rfl
    rw [List.cons_append, Seg, Seg, ih, hlast, List.head?_append, Option.or_assoc]
    simp only [and_assoc]

/-- The neighbours of a cell in the middle of a list. -/
theorem Seg.neighbours {l : Links α} {xs ys : List α} {a : α} (h : Seg l none (xs ++ a :: ys) none) :
    l.prev a = xs.getLast? ∧ l.next a = ys.head? := by
  obtain ⟨-, hprev, hnext, -⟩ := Seg_append.1 h
  rw [Option.or_none] at hprev hnext
  exact ⟨hprev, hnext⟩

section Edits

variable [DecidableEq α] {l : Links α} {p q : Option α} {xs ys : List α} {a : α}

/-- The successor of a list's last cell can be replaced. -/
theorem Seg.setNext_last {b : α} (h : Seg l p (xs ++ [b]) q) (hb : b ∉ xs) (q' : Option α) :
    Seg (l.setNext b q') p (xs ++ [b]) q' := by
  rw [Seg_append] at h ⊢
  refine ⟨?_, h.2.1, by simp, trivial⟩
  apply h.1.congr
  · exact fun x hx => l.setNext_next_of_ne _ (ne_of_mem_of_not_mem hx hb)
  · exact fun x hx => rfl

/-- The predecessor of a list's first cell can be replaced. -/
theorem Seg.setPrev_head {b : α} (h : Seg l p (b :: xs) q) (hb : b ∉ xs) (p' : Option α) :
    Seg (l.setPrev b p') p' (b :: xs) q := by
  refine ⟨by simp, h.2.1, ?_⟩
  apply h.2.2.congr
  · exact fun x hx => rfl
  · exact fun x hx => l.setPrev_prev_of_ne _ (ne_of_mem_of_not_mem hx hb)

/-- A write to the fields of a cell outside a list is not seen by it. -/
theorem Seg.setNext_notMem (h : Seg l p xs q) (ha : a ∉ xs) (v : Option α) : Seg (l.setNext a v) p xs q :=
  h.congr (fun _ hx => l.setNext_next_of_ne _ (ne_of_mem_of_not_mem hx ha)) fun _ _ => rfl

theorem Seg.setPrev_notMem (h : Seg l p xs q) (ha : a ∉ xs) (v : Option α) : Seg (l.setPrev a v) p xs q :=
  h.congr (fun _ _ => rfl) fun _ hx => l.setPrev_prev_of_ne _ (ne_of_mem_of_not_mem hx ha)

theorem Seg.pushFront (h : Seg l none xs none) (hnodup : xs.Nodup) (ha : a ∉ xs) :
    Seg (l.pushFront xs.head? a) none (a :: xs) none := by
  cases xs with
  | nil => exact ⟨by simp [Links.pushFront], by simp [Links.pushFront], trivial⟩
  | cons b xs =>
    have hab : a ≠ b := fun he => ha (he ▸ List.mem_cons_self)
    have hrest : Seg ((l.setNext a (some b)).setPrev a none) none (b :: xs) none :=
      (h.setNext_notMem ha _).setPrev_notMem ha _
    refine ⟨?_, ?_, hrest.setPrev_head (List.nodup_cons.1 hnodup).1 _⟩
    · change (Links.setPrev _ b (some a)).prev a = none
      rw [Links.setPrev_prev_of_ne _ _ hab, Links.setPrev_prev_self]
    · change (l.setNext a (some b)).next a = some b
      rw [Links.setNext_next_self]

theorem Seg.pushBack {b : α} (h : Seg l none (xs ++ [b]) none) (hnodup : (xs ++ [b]).Nodup)
    (ha : a ∉ xs ++ [b]) : Seg (l.pushBack b a) none (xs ++ [b] ++ [a]) none := by
  have hb : b ∉ xs := fun hb => (List.nodup_append.1 hnodup).2.2 b hb b (List.mem_singleton.2 rfl) rfl
  have hab : a ≠ b := fun he => ha (he ▸ List.mem_append_right _ (List.mem_singleton.2 rfl))
  have hrest : Seg ((l.setNext a none).setPrev a (some b)) none (xs ++ [b]) none :=
    (h.setNext_notMem ha _).setPrev_notMem ha _
  rw [Seg_append]
  refine ⟨hrest.setNext_last hb _, ?_, ?_, trivial⟩
  · rw [List.getLast?_append]
    change ((l.setNext a none).setPrev a (some b)).prev a = _
    rw [Links.setPrev_prev_self]
    rfl
  · change (Links.setNext _ b (some a)).next a = _
    rw [Links.setNext_next_of_ne _ _ hab]
    change (l.setNext a none).next a = _
    rw [Links.setNext_next_self]
    rfl

theorem Seg.unlink (h : Seg l none (xs ++ a :: ys) none) (hnodup : (xs ++ a :: ys).Nodup) :
    Seg (l.unlink a) none (xs ++ ys) none := by
  obtain ⟨hprev, hnext⟩ := h.neighbours
  obtain ⟨hxs, -, -, hys⟩ := Seg_append.1 h
  obtain ⟨hnxs, hnys, hdisjoint⟩ := List.nodup_append.1 hnodup
  have hays : a ∉ ys := (List.nodup_cons.1 hnys).1
  have hax : a ∉ xs := fun ha => hdisjoint a ha a List.mem_cons_self rfl
  -- The front part gets the successor of `a`.
  have hfront : ∃ l' : Links α, (match l.prev a with
      | some p => l.setNext p (l.next a)
      | none => l) = l' ∧ Seg l' none xs ys.head? ∧ Seg l' (some a) ys none ∧
      l'.next a = ys.head? ∧ l'.prev a = xs.getLast? := by
    rw [hprev, hnext]
    rcases List.eq_nil_or_concat xs with rfl | ⟨xs, b, rfl⟩
    · exact ⟨l, rfl, trivial, hys, hnext, hprev⟩
    · rw [List.concat_eq_append] at *
      rw [List.getLast?_concat] at *
      have hb : b ∉ xs := fun hb => (List.nodup_append.1 hnxs).2.2 b hb b (List.mem_singleton.2 rfl) rfl
      have hby : b ∉ ys := fun hb =>
        hdisjoint b (List.mem_append_right _ (List.mem_singleton.2 rfl)) b (List.mem_cons_of_mem _ hb) rfl
      have hab : a ≠ b := fun he => hax (he ▸ List.mem_append_right _ (List.mem_singleton.2 rfl))
      refine ⟨_, rfl, hxs.setNext_last hb _, hys.setNext_notMem hby _, ?_, hprev⟩
      rw [l.setNext_next_of_ne _ hab, hnext]
  obtain ⟨l', hl', hxs', hys', hnext', hprev'⟩ := hfront
  unfold Links.unlink
  rw [hl']
  dsimp only
  rw [hnext', hprev', Seg_append, Option.or_none]
  -- The back part gets its predecessor.
  cases ys with
  | nil => exact ⟨hxs', trivial⟩
  | cons c ys =>
    have hc : c ∉ xs := fun hc => hdisjoint c hc c (List.mem_cons_of_mem _ List.mem_cons_self) rfl
    refine ⟨hxs'.setPrev_notMem hc _, ?_⟩
    rw [Option.or_none]
    exact hys'.setPrev_head (List.nodup_cons.1 (List.nodup_cons.1 hnys).2).1 _

/-- Taking a cell out of its list changes only the fields of the list's other cells. -/
theorem Seg.unlink_of_notMem (h : Seg l none (xs ++ a :: ys) none) (hnodup : (xs ++ a :: ys).Nodup)
    {z : α} (hz : z ∉ xs ++ ys) :
    (l.unlink a).next z = l.next z ∧ (l.unlink a).prev z = l.prev z := by
  obtain ⟨hprev, hnext⟩ := h.neighbours
  have hax : ∀ p ∈ xs.getLast?, a ≠ p := fun p hp he =>
    (List.nodup_append.1 hnodup).2.2 p (List.mem_of_getLast? hp) a List.mem_cons_self he.symm
  have hzx : ∀ p ∈ xs.getLast?, z ≠ p := fun p hp he =>
    hz (List.mem_append_left _ (he ▸ List.mem_of_getLast? hp))
  have hzy : ∀ n ∈ ys.head?, z ≠ n := fun n hn he =>
    hz (List.mem_append_right _ (he ▸ List.mem_of_head? hn))
  rw [← hprev] at hax hzx
  rw [← hnext] at hzy
  unfold Links.unlink
  cases hp : l.prev a with
  | none =>
    cases hn : l.next a with
    | none =>
      simp only [hn]
      exact ⟨trivial, trivial⟩
    | some n =>
      simp only [hn]
      exact ⟨rfl, l.setPrev_prev_of_ne _ (hzy n hn)⟩
  | some p =>
    have hkept : (l.setNext p (l.next a)).next z = l.next z := l.setNext_next_of_ne _ (hzx p hp)
    have hnext' : (l.setNext p (l.next a)).next a = l.next a := l.setNext_next_of_ne _ (hax p hp)
    dsimp only
    rw [hnext']
    cases hn : l.next a with
    | none =>
      rw [hn] at hkept
      exact ⟨hkept, rfl⟩
    | some n =>
      rw [hn] at hkept
      exact ⟨hkept, Links.setPrev_prev_of_ne _ _ (hzy n hn)⟩

/-- A cell put in front of a list changes no other `next` field. -/
theorem Links.pushFront_next_of_ne (l : Links α) (head : Option α) {z : α} (hz : z ≠ a) :
    (l.pushFront head a).next z = l.next z := by
  cases head with
  | none => exact l.setNext_next_of_ne _ hz
  | some b => exact l.setNext_next_of_ne _ hz

/-- A cell put in front of a list changes its own fields and the `prev` field of the list's first cell. -/
theorem Links.pushFront_of_ne {head : Option α} {z : α} (hz : z ≠ a) (hhead : head ≠ some z) :
    (l.pushFront head a).next z = l.next z ∧ (l.pushFront head a).prev z = l.prev z := by
  refine ⟨l.pushFront_next_of_ne head hz, ?_⟩
  cases head with
  | none => exact Links.setPrev_prev_of_ne _ _ hz
  | some b =>
    have hzb : z ≠ b := fun he => hhead (he ▸ rfl)
    change (Links.setPrev _ b (some a)).prev z = _
    rw [Links.setPrev_prev_of_ne _ _ hzb, Links.setPrev_prev_of_ne _ _ hz]
    rfl

end Edits

end ChatRooms
