import Mathlib.Data.Multiset.AddSub
import Mathlib.Data.Multiset.Lattice
import Mathlib.Order.Lattice.Nat

/-!
# Blocks of a heap

Computations that allocate, use and free blocks of memory.  A heap is the addresses of the blocks in use; what
they hold is the business of the computation.  A block that is used or freed where there is none stops the
computation, so "no block is used after it was freed or moved, and none is freed twice" is "no such stop", and "no
block is lost" says what is in use at the end.

`Runs` compares such a computation with a plain one that knows no addresses: it stops where the plain one does
and for no other reason, and else the results and the blocks that are left are related.  Its rules follow the
computation from one operation to the next.
-/

namespace ChatRooms

/-- A choice of the address of a new block, at which there is none, and of the blocks that a `realloc` moves. -/
structure Allocator (A : Type) where
  place : Multiset A → A
  fresh : ∀ live, place live ∉ live
  moves : Multiset A → A → Bool

/-- The allocator that puts a new block above all others, and moves every block. -/
def Allocator.above : Allocator ℕ where
  place live := live.sup + 1
  fresh live h := absurd (Multiset.le_sup h) (by omega)
  moves _ _ := true

/-- Why a computation on the heap stops: for a reason of its own, or at an address where there is no block. -/
inductive HeapStop (A ε : Type) where
  | stop (e : ε)
  | noBlock (p : A)

/-- A computation on the heap. -/
abbrev OnHeap (A ε : Type) := StateT (Multiset A) (Except (HeapStop A ε))

variable {A ε ε' α β γ δ : Type}

namespace OnHeap

/-- A computation that leaves the blocks alone. -/
def lift (x : Except ε α) : OnHeap A ε α := fun live =>
  match x with
  | .ok a => .ok (a, live)
  | .error e => .error (.stop e)

/-- A new block. -/
def alloc (malloc : Allocator A) : OnHeap A ε A := fun live =>
  .ok (malloc.place live, malloc.place live ::ₘ live)

/-- A use of a block. -/
def access [DecidableEq A] (p : A) : OnHeap A ε Unit := fun live =>
  if p ∈ live then .ok ((), live) else .error (.noBlock p)

/-- A use of the block behind a pointer, if it is not null. -/
def accessAt [DecidableEq A] : Option A → OnHeap A ε Unit
  | none => return ()
  | some p => access p

/-- Takes a block back. -/
def free [DecidableEq A] (p : A) : OnHeap A ε Unit := fun live =>
  if p ∈ live then .ok ((), live.erase p) else .error (.noBlock p)

/-- Another size for a block.  It stays where it is, or it is moved; then it is copied to a new block before the old
one is taken back, so its address is another one. -/
def realloc [DecidableEq A] (malloc : Allocator A) (p : A) : OnHeap A ε A := do
  access p
  if malloc.moves (← get) p then
    let q ← alloc malloc
    free p
    return q
  else return p

/-- A computation whose own reasons to stop are among those of a larger one. -/
def mapStop (f : ε → ε') (c : OnHeap A ε α) : OnHeap A ε' α := fun live =>
  match c live with
  | .ok r => .ok r
  | .error (.stop e) => .error (.stop (f e))
  | .error (.noBlock p) => .error (.noBlock p)

theorem bind_apply (c : OnHeap A ε α) (f : α → OnHeap A ε β) (live : Multiset A) :
    (c >>= f) live = c live >>= fun r => f r.1 r.2 := rfl

theorem bind_apply_of_ok {c : OnHeap A ε α} {live left : Multiset A} {a : α} (h : c live = .ok (a, left))
    (f : α → OnHeap A ε β) : (c >>= f) live = f a left := by
  rw [bind_apply, h]
  rfl

theorem bind_apply_of_error {c : OnHeap A ε α} {live : Multiset A} {e : HeapStop A ε} (h : c live = .error e)
    (f : α → OnHeap A ε β) : (c >>= f) live = .error e := by
  rw [bind_apply, h]
  rfl

theorem free_cons [DecidableEq A] (p : A) (live : Multiset A) :
    (free p : OnHeap A ε Unit) (p ::ₘ live) = .ok ((), live) := by
  rw [free, if_pos (Multiset.mem_cons_self p live), Multiset.erase_cons_head]

/-- Only one block is in use behind a `realloc`, at one address or the other. -/
theorem realloc_cons [DecidableEq A] (malloc : Allocator A) (p : A) (live : Multiset A) :
    (realloc malloc p : OnHeap A ε A) (p ::ₘ live) =
      if malloc.moves (p ::ₘ live) p then
        .ok (malloc.place (p ::ₘ live), malloc.place (p ::ₘ live) ::ₘ live)
      else .ok (p, p ::ₘ live) := by
  have haccess : (access p : OnHeap A ε Unit) (p ::ₘ live) = .ok ((), p ::ₘ live) :=
    if_pos (Multiset.mem_cons_self p live)
  have hget : (get : OnHeap A ε (Multiset A)) (p ::ₘ live) = .ok (p ::ₘ live, p ::ₘ live) := rfl
  rw [realloc, bind_apply_of_ok haccess, bind_apply_of_ok hget]
  by_cases hmoves : malloc.moves (p ::ₘ live) p = true
  · have halloc : (alloc malloc : OnHeap A ε A) (p ::ₘ live) =
        .ok (malloc.place (p ::ₘ live), p ::ₘ malloc.place (p ::ₘ live) ::ₘ live) := by
      rw [alloc, Multiset.cons_swap]
    rw [if_pos hmoves, if_pos hmoves, bind_apply_of_ok halloc, bind_apply_of_ok (free_cons p _)]
    rfl
  · rw [if_neg hmoves, if_neg hmoves]
    rfl

end OnHeap

/-- On the blocks `live` the computation stops where the plain one does, and for the same reason; else `R` relates
the results and the blocks that are left. -/
def Runs (live : Multiset A) (c : OnHeap A ε α) (x : Except ε β) (R : α → β → Multiset A → Prop) : Prop :=
  live.Nodup → match x with
    | .error e => c live = .error (.stop e)
    | .ok b => ∃ a left, R a b left ∧ left.Nodup ∧ c live = .ok (a, left)

/-- The results are the same, and so are the blocks. -/
def Keeps (live : Multiset A) (a b : α) (left : Multiset A) : Prop := a = b ∧ left = live

namespace Runs

variable {live : Multiset A} {c : OnHeap A ε α} {x : Except ε β} {R R' : α → β → Multiset A → Prop}
  {f : α → OnHeap A ε γ} {g : β → Except ε δ} {S : γ → δ → Multiset A → Prop}

theorem pure {a : α} {b : β} (h : R a b live) : Runs live (Pure.pure a : OnHeap A ε α) (.ok b) R :=
  fun distinct => ⟨a, live, h, distinct, rfl⟩

theorem error (e : ε) : Runs live (OnHeap.lift (.error e) : OnHeap A ε α) (.error e) R := fun _ => rfl

theorem mono (h : Runs live c x R) (hR : ∀ a b left, R a b left → R' a b left) : Runs live c x R' := by
  intro distinct
  have hrun := h distinct
  cases x with
  | error e => exact hrun
  | ok b =>
    obtain ⟨a, left, hrel, hleft, heq⟩ := hrun
    exact ⟨a, left, hR a b left hrel, hleft, heq⟩

/-- Computations one after another. -/
theorem bind (h : Runs live c x R)
    (hnext : ∀ a b left, x = .ok b → R a b left → Runs left (f a) (g b) S) : Runs live (c >>= f) (x >>= g) S := by
  intro distinct
  have hrun := h distinct
  cases x with
  | error e => exact OnHeap.bind_apply_of_error hrun f
  | ok b =>
    obtain ⟨a, left, hrel, hleft, heq⟩ := hrun
    have hrest := hnext a b left rfl hrel hleft
    rwa [← OnHeap.bind_apply_of_ok heq f] at hrest

/-- The plain computation does nothing meanwhile. -/
theorem bind_left {b : β} {y : Except ε δ} (h : Runs live c (.ok b : Except ε β) R)
    (hnext : ∀ a left, R a b left → Runs left (f a) y S) : Runs live (c >>= f) y S :=
  h.bind (g := fun _ => y) fun a b' left hb hrel => by
    cases hb
    exact hnext a left hrel

theorem lift (x : Except ε α) : Runs live (OnHeap.lift x) x (Keeps live) := by
  intro distinct
  cases x with
  | error e => rfl
  | ok a => exact ⟨a, live, ⟨rfl, rfl⟩, distinct, rfl⟩

theorem lift_bind {x : Except ε α} {g : α → Except ε δ} (hnext : ∀ a, x = .ok a → Runs live (f a) (g a) S) :
    Runs live (OnHeap.lift x >>= f) (x >>= g) S := by
  apply (lift x).bind
  rintro a _ _ hx ⟨rfl, rfl⟩
  exact hnext a hx

theorem alloc_place_bind (malloc : Allocator A) {f : A → OnHeap A ε γ} {y : Except ε δ}
    (hnext : Runs (malloc.place live ::ₘ live) (f (malloc.place live)) y S) :
    Runs live (OnHeap.alloc malloc >>= f) y S :=
  fun distinct => hnext (Multiset.nodup_cons.2 ⟨malloc.fresh live, distinct⟩)

/-- Wherever the new block is put. -/
theorem alloc_bind (malloc : Allocator A) {f : A → OnHeap A ε γ} {y : Except ε δ}
    (hnext : ∀ p, Runs (p ::ₘ live) (f p) y S) : Runs live (OnHeap.alloc malloc >>= f) y S :=
  alloc_place_bind malloc (hnext _)

/-- Wherever the resized block is, and whether it has been moved or not. -/
theorem realloc_last_bind [DecidableEq A] {p : A} (malloc : Allocator A) {f : A → OnHeap A ε γ} {y : Except ε δ}
    (hnext : ∀ q, Runs (q ::ₘ live) (f q) y S) : Runs (p ::ₘ live) (OnHeap.realloc malloc p >>= f) y S := by
  intro distinct
  have hrealloc : (OnHeap.realloc malloc p : OnHeap A ε A) (p ::ₘ live) = _ := OnHeap.realloc_cons malloc p live
  by_cases hmoves : malloc.moves (p ::ₘ live) p = true
  · rw [if_pos hmoves] at hrealloc
    rw [OnHeap.bind_apply_of_ok hrealloc f]
    have hfresh := malloc.fresh (p ::ₘ live)
    rw [Multiset.mem_cons, not_or] at hfresh
    exact hnext _ (Multiset.nodup_cons.2 ⟨hfresh.2, (Multiset.nodup_cons.1 distinct).2⟩)
  · rw [if_neg hmoves] at hrealloc
    rw [OnHeap.bind_apply_of_ok hrealloc f]
    exact hnext p distinct

section

variable [DecidableEq A] {p : A} {f : Unit → OnHeap A ε γ} {y : Except ε δ}

theorem access_bind (hp : p ∈ live) (hnext : Runs live (f ()) y S) : Runs live (OnHeap.access p >>= f) y S := by
  intro distinct
  rw [OnHeap.bind_apply_of_ok (if_pos hp) f]
  exact hnext distinct

theorem accessAt_bind {pointer : Option A} (hpointer : ∀ p ∈ pointer, p ∈ live) (hnext : Runs live (f ()) y S) :
    Runs live (OnHeap.accessAt pointer >>= f) y S := by
  cases pointer with
  | none => exact hnext
  | some p => exact access_bind (hpointer p rfl) hnext

theorem free_bind {left : Multiset A} (hlive : live = p ::ₘ left) (hnext : Runs left (f ()) y S) :
    Runs live (OnHeap.free p >>= f) y S := by
  subst hlive
  intro distinct
  rw [OnHeap.bind_apply_of_ok (OnHeap.free_cons p left) f]
  exact hnext (Multiset.nodup_cons.1 distinct).2

/-- The block that was allocated last is the first to be freed. -/
theorem free_last_bind (hnext : Runs live (f ()) y S) : Runs (p ::ₘ live) (OnHeap.free p >>= f) y S :=
  free_bind rfl hnext

end

theorem mapStop (h : Runs live c x R) (f : ε → ε') : Runs live (c.mapStop f) (x.mapError f) R := by
  intro distinct
  have hrun := h distinct
  cases x with
  | error e =>
    change OnHeap.mapStop f c live = .error (.stop (f e))
    rw [OnHeap.mapStop, hrun]
  | ok b =>
    obtain ⟨a, left, hrel, hleft, heq⟩ := hrun
    refine ⟨a, left, hrel, hleft, ?_⟩
    rw [OnHeap.mapStop, heq]

/-- What the computation returns, the plain one returns. -/
theorem of_ok (h : Runs live c x R) (distinct : live.Nodup) {a : α} {left : Multiset A}
    (hc : c live = .ok (a, left)) : ∃ b, x = .ok b ∧ R a b left ∧ left.Nodup := by
  have hrun := h distinct
  cases x with
  | error e =>
    rw [show c live = .error (.stop e) from hrun] at hc
    cases hc
  | ok b =>
    obtain ⟨a', left', hrel, hleft, heq⟩ := hrun
    rw [heq] at hc
    cases hc
    exact ⟨b, rfl, hrel, hleft⟩

/-- It stops at no missing block. -/
theorem noBlock (h : Runs live c x R) (distinct : live.Nodup) (p : A) : c live ≠ .error (.noBlock p) := by
  have hrun := h distinct
  cases x with
  | error e =>
    rw [show c live = .error (.stop e) from hrun]
    simp
  | ok b =>
    obtain ⟨a, left, -, -, heq⟩ := hrun
    rw [heq]
    simp

end Runs

end ChatRooms
