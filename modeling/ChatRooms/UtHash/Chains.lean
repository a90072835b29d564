import Mathlib.Data.List.Perm.Lattice
import ChatRooms.UtHash.Basic

/-!
# The buckets of the hash table

`Chains` says that the buckets hold some items: the chain of each bucket is a doubly linked list, counted
right, of the items whose hash value leads there.  Putting an item in front of its chain and taking it out
again keep this (`Chains.pushFront`, `Chains.unlink`), and so does `HASH_EXPAND_BUCKETS`, which moves every
item to one of twice as many buckets (`hashExpandBuckets_spec`).

All walks end: the fuel of each is the number of items the bucket counts.
-/

namespace ChatRooms

variable {α : Type}

theorem hashToBkt_two_pow (hashv : UInt32) {k : ℕ} (hk : k ≤ 31) :
    hashToBkt hashv (2 ^ k) = hashv.toNat % 2 ^ k := by
  have hle : 2 ^ k ≤ 2 ^ 31 := Nat.pow_le_pow_right (by omega) hk
  have hpos : 0 < 2 ^ k := Nat.two_pow_pos k
  have hmask : u32 (2 ^ k + 2 ^ 32 - 1) = 2 ^ k - 1 := by
    unfold u32
    omega
  rw [hashToBkt, hmask, Nat.and_two_pow_sub_one_eq_mod]

theorem hashToBkt_lt (hashv : UInt32) {k : ℕ} (hk : k ≤ 31) : hashToBkt hashv (2 ^ k) < 2 ^ k := by
  rw [hashToBkt_two_pow hashv hk]
  exact Nat.mod_lt _ (Nat.two_pow_pos k)

@[simp] theorem HashStop.ok_bind {β γ : Type} (b : β) (f : β → Except HashStop γ) :
    (Except.ok b >>= f : Except HashStop γ) = f b := rfl

theorem bucketAt_eq_ok {buckets : List (UtHashBucket α)} {bkt : ℕ} {b : UtHashBucket α}
    (h : buckets[bkt]? = some b) : bucketAt buckets bkt = .ok b := by
  unfold bucketAt
  rw [h]

/-- The buckets hold the items, each in the chain of the bucket that `bkt` gives it. -/
structure Chains (chain : Links α) (bkt : α → ℕ) (n : ℕ) (buckets : List (UtHashBucket α))
    (items : List α) (chains : ℕ → List α) : Prop where
  length : buckets.length = n
  cell : ∀ j < n, ∃ m, buckets[j]? = some ⟨(chains j).head?, (chains j).length, m⟩
  linked : ∀ j < n, Seg chain none (chains j) none
  perm : ∀ j < n, (chains j).Perm (items.filter (bkt · = j))

namespace Chains

variable {chain : Links α} {bkt : α → ℕ} {n : ℕ} {buckets : List (UtHashBucket α)}
  {items : List α} {chains : ℕ → List α}

theorem mem (h : Chains chain bkt n buckets items chains) {j : ℕ} (hj : j < n) {a : α} :
    a ∈ chains j ↔ a ∈ items ∧ bkt a = j := by
  simp [(h.perm j hj).mem_iff]

theorem nodup (h : Chains chain bkt n buckets items chains) (hnodup : items.Nodup) {j : ℕ} (hj : j < n) :
    (chains j).Nodup :=
  (h.perm j hj).nodup_iff.2 (hnodup.filter _)

theorem length_le (h : Chains chain bkt n buckets items chains) {j : ℕ} (hj : j < n) :
    (chains j).length ≤ items.length := by
  rw [(h.perm j hj).length_eq]
  exact List.length_filter_le _ _

/-- Empty buckets hold no items. -/
theorem empty (chain : Links α) (bkt : α → ℕ) (n : ℕ) :
    Chains chain bkt n (List.replicate n ⟨none, 0, 0⟩) [] fun _ => [] where
  length := List.length_replicate
  cell := fun j hj => ⟨0, by rw [List.getElem?_replicate, if_pos hj]; rfl⟩
  linked := fun _ _ => trivial
  perm := fun _ _ => .nil

theorem congr_items (h : Chains chain bkt n buckets items chains) {items' : List α}
    (hperm : items.Perm items') : Chains chain bkt n buckets items' chains where
  length := h.length
  cell := h.cell
  linked := h.linked
  perm := fun j hj => (h.perm j hj).trans (hperm.filter _)

/-- The buckets see the bucket index of their items only. -/
theorem congr_bkt (h : Chains chain bkt n buckets items chains) {bkt' : α → ℕ}
    (hbkt : ∀ a ∈ items, bkt' a = bkt a) : Chains chain bkt' n buckets items chains where
  length := h.length
  cell := h.cell
  linked := h.linked
  perm := by
    intro j hj
    rw [List.filter_congr fun a ha => by rw [hbkt a ha]]
    exact h.perm j hj

/-- All chains together are the items. -/
theorem flatMap_perm (h : Chains chain bkt n buckets items chains) (hnodup : items.Nodup)
    (hbkt : ∀ a ∈ items, bkt a < n) : ((List.range n).flatMap chains).Perm items := by
  have hflat : ((List.range n).flatMap chains).Nodup := by
    rw [List.nodup_flatMap]
    refine ⟨fun j hj => h.nodup hnodup (List.mem_range.1 hj), ?_⟩
    apply List.Pairwise.imp_of_mem _ (List.nodup_range (n := n))
    intro i j hi hj hij a hai haj
    rw [h.mem (List.mem_range.1 hi)] at hai
    rw [h.mem (List.mem_range.1 hj)] at haj
    exact hij (hai.2.symm.trans haj.2)
  rw [List.perm_ext_iff_of_nodup hflat hnodup]
  intro a
  rw [List.mem_flatMap]
  constructor
  · rintro ⟨j, hj, ha⟩
    exact ((h.mem (List.mem_range.1 hj)).1 ha).1
  · intro ha
    exact ⟨bkt a, List.mem_range.2 (hbkt a ha), (h.mem (hbkt a ha)).2 ⟨ha, rfl⟩⟩

section Edits

variable [DecidableEq α] {a : α} {b : UtHashBucket α}

/-- An item is put in front of the chain of its bucket. -/
theorem pushFront (h : Chains chain bkt n buckets items chains) (hnodup : items.Nodup) (ha : a ∉ items)
    (hbkt : bkt a < n) (m : ℕ) :
    Chains (chain.pushFront (chains (bkt a)).head? a) bkt n
      (buckets.set (bkt a) ⟨some a, (chains (bkt a)).length + 1, m⟩) (a :: items)
      (Function.update chains (bkt a) (a :: chains (bkt a))) where
  length := by rw [List.length_set, h.length]
  cell := by
    intro j hj
    by_cases hja : j = bkt a
    · subst hja
      refine ⟨m, ?_⟩
      rw [List.getElem?_set_self (by rw [h.length]; exact hj), Function.update_self]
      rfl
    · rw [List.getElem?_set_ne (Ne.symm hja), Function.update_of_ne hja]
      exact h.cell j hj
  linked := by
    intro j hj
    by_cases hja : j = bkt a
    · subst hja
      rw [Function.update_self]
      apply (h.linked _ hj).pushFront (h.nodup hnodup hj)
      exact fun hmem => ha ((h.mem hj).1 hmem).1
    · rw [Function.update_of_ne hja]
      -- The other chains hold neither `a` nor the first item of the chain of `a`.
      have hne : ∀ x ∈ chains j, x ≠ a ∧ (chains (bkt a)).head? ≠ some x := by
        intro x hx
        refine ⟨fun he => ha (he ▸ ((h.mem hj).1 hx).1), fun hhead => ?_⟩
        have hxa := (h.mem hbkt).1 (List.mem_of_head? hhead)
        exact hja (((h.mem hj).1 hx).2.symm.trans hxa.2)
      apply (h.linked j hj).congr
      · exact fun x hx => (Links.pushFront_of_ne (hne x hx).1 (hne x hx).2).1
      · exact fun x hx => (Links.pushFront_of_ne (hne x hx).1 (hne x hx).2).2
  perm := by
    intro j hj
    by_cases hja : j = bkt a
    · subst hja
      rw [Function.update_self, List.filter_cons_of_pos (by simp)]
      exact (h.perm _ hj).cons a
    · rw [Function.update_of_ne hja, List.filter_cons_of_neg (by simpa using Ne.symm hja)]
      exact h.perm j hj

/-- An item is taken out of the chain of its bucket. -/
theorem unlink (h : Chains chain bkt n buckets items chains) (hnodup : items.Nodup) (ha : a ∈ items)
    (hbkt : bkt a < n) (m : ℕ) :
    Chains (chain.unlink a) bkt n
      (buckets.set (bkt a) ⟨if (chains (bkt a)).head? = some a then chain.next a
        else (chains (bkt a)).head?, (chains (bkt a)).length - 1, m⟩) (items.erase a)
      (Function.update chains (bkt a) ((chains (bkt a)).erase a)) := by
  have hmem : a ∈ chains (bkt a) := (h.mem hbkt).2 ⟨ha, rfl⟩
  have hchain := h.nodup hnodup hbkt
  have hlinked := h.linked _ hbkt
  obtain ⟨xs, ys, hsplit⟩ := List.append_of_mem hmem
  rw [hsplit] at hchain hlinked
  have hax : a ∉ xs := fun hx => (List.nodup_append.1 hchain).2.2 a hx a List.mem_cons_self rfl
  have herase : (chains (bkt a)).erase a = xs ++ ys := by
    rw [hsplit, List.erase_append_right _ hax, List.erase_cons_head]
  have hhead : (if (chains (bkt a)).head? = some a then chain.next a else (chains (bkt a)).head?) =
      (xs ++ ys).head? := by
    rw [hsplit]
    cases xs with
    | nil => exact (if_pos rfl).trans hlinked.neighbours.2
    | cons x xs => exact if_neg fun he => hax (by cases he; exact List.mem_cons_self)
  refine ⟨by rw [List.length_set, h.length], fun j hj => ?_, fun j hj => ?_, fun j hj => ?_⟩
  · by_cases hja : j = bkt a
    · subst hja
      refine ⟨m, ?_⟩
      rw [List.getElem?_set_self (by rw [h.length]; exact hj), Function.update_self, hhead, ← herase,
        List.length_erase_of_mem hmem]
    · rw [List.getElem?_set_ne (Ne.symm hja), Function.update_of_ne hja]
      exact h.cell j hj
  · by_cases hja : j = bkt a
    · subst hja
      rw [Function.update_self, herase]
      exact hlinked.unlink hchain
    · rw [Function.update_of_ne hja]
      have hnot : ∀ x ∈ chains j, x ∉ xs ++ ys := by
        intro x hx hxs
        rw [← herase] at hxs
        have hxa := (h.mem hbkt).1 (List.mem_of_mem_erase hxs)
        exact hja (((h.mem hj).1 hx).2.symm.trans hxa.2)
      apply (h.linked j hj).congr
      · exact fun x hx => (hlinked.unlink_of_notMem hchain (hnot x hx)).1
      · exact fun x hx => (hlinked.unlink_of_notMem hchain (hnot x hx)).2
  · by_cases hja : j = bkt a
    · subst hja
      rw [Function.update_self, ← List.erase_filter]
      exact (h.perm _ hj).erase a
    · rw [Function.update_of_ne hja, ← List.erase_filter, List.erase_of_not_mem]
      · exact h.perm j hj
      · simpa using fun _ => Ne.symm hja

end Edits

end Chains

/-! ## Expansion -/

section Expansion

variable [DecidableEq α] {hashv : α → UInt32} {k : ℕ} (ideal : ℕ)

/-- The bucket of an item among twice `2 ^ k` buckets. -/
def newBkt (hashv : α → UInt32) (k : ℕ) (a : α) : ℕ := hashToBkt (hashv a) (2 ^ (k + 1))

/-- One item is moved: it is in its new bucket, and the items that are not moved yet keep their `next`. -/
theorem moveElement_spec (hk : k ≤ 30) {e : Expansion α} {moved : List α} {chains : ℕ → List α}
    (h : Chains e.chain (newBkt hashv k) (2 ^ (k + 1)) e.newBuckets moved chains) (hnodup : moved.Nodup)
    {a : α} (ha : a ∉ moved) (hlen : moved.length + 1 < 2 ^ 32) :
    ∃ e' chains', moveElement hashv (2 ^ k) ideal a e = .ok e' ∧
      Chains e'.chain (newBkt hashv k) (2 ^ (k + 1)) e'.newBuckets (a :: moved) chains' ∧
      ∀ z, z ∉ a :: moved → e'.chain.next z = e.chain.next z := by
  have hwidth : u32 (2 ^ k * 2) = 2 ^ (k + 1) := by
    have hle : 2 ^ (k + 1) ≤ 2 ^ 31 := Nat.pow_le_pow_right (by omega) (by omega)
    rw [← pow_succ]
    exact u32_of_lt (by omega)
  have hlt : newBkt hashv k a < 2 ^ (k + 1) := hashToBkt_lt _ (by omega)
  obtain ⟨m, hcell⟩ := h.cell _ hlt
  have hcount : u32 ((chains (newBkt hashv k a)).length + 1) = (chains (newBkt hashv k a)).length + 1 := by
    have := h.length_le hlt
    exact u32_of_lt (by omega)
  have hmove : ∃ m' nonideal, moveElement hashv (2 ^ k) ideal a e = .ok {
      chain := e.chain.pushFront (chains (newBkt hashv k a)).head? a
      newBuckets := e.newBuckets.set (newBkt hashv k a)
        ⟨some a, (chains (newBkt hashv k a)).length + 1, m'⟩
      nonidealItems := nonideal } := by
    rw [moveElement, hwidth]
    change ∃ m' nonideal, bucketAt e.newBuckets (newBkt hashv k a) >>= _ = _
    rw [bucketAt_eq_ok hcell]
    dsimp only
    rw [← hcount]
    exact ⟨_, _, rfl⟩
  obtain ⟨m', nonideal, hmove⟩ := hmove
  refine ⟨_, _, hmove, h.pushFront hnodup ha hlt m', ?_⟩
  intro z hz
  have hza : z ≠ a := fun he => hz (he ▸ List.mem_cons_self)
  have hzm : z ∉ moved := fun hm => hz (List.mem_cons_of_mem _ hm)
  exact (Links.pushFront_of_ne hza fun hhead => hzm ((h.mem hlt).1 (List.mem_of_head? hhead)).1).1

/-- The items of a chain are moved one after another. -/
theorem moveChain_spec (hk : k ≤ 30) {xs moved : List α} {e : Expansion α} {chains : ℕ → List α}
    (h : Chains e.chain (newBkt hashv k) (2 ^ (k + 1)) e.newBuckets moved chains)
    (hfollows : Follows e.chain.next xs) (hnodup : (xs ++ moved).Nodup)
    (hlen : (xs ++ moved).length < 2 ^ 32) :
    ∃ e' moved' chains', moveChain hashv (2 ^ k) ideal xs.length xs.head? e = .ok e' ∧
      Chains e'.chain (newBkt hashv k) (2 ^ (k + 1)) e'.newBuckets moved' chains' ∧
      moved'.Perm (xs ++ moved) ∧ ∀ z, z ∉ xs ++ moved → e'.chain.next z = e.chain.next z := by
  induction xs generalizing moved e chains with
  | nil => exact ⟨e, moved, chains, rfl, h, .refl _, fun _ _ => rfl⟩
  | cons a xs ih =>
    rw [List.cons_append, List.nodup_cons] at hnodup
    obtain ⟨ha, hrest⟩ := hnodup
    rw [List.cons_append, List.length_cons, List.length_append] at hlen
    have hmoved : moved.Nodup := (List.nodup_append.1 hrest).2.1
    have ham : a ∉ moved := fun hm => ha (List.mem_append_right _ hm)
    have hxs : ∀ x ∈ xs, x ∉ a :: moved := by
      intro x hx hmem
      rcases List.mem_cons.1 hmem with rfl | hm
      · exact ha (List.mem_append_left _ hx)
      · exact (List.nodup_append.1 hrest).2.2 x hx x hm rfl
    obtain ⟨e₁, chains₁, hmove, h₁, hkept₁⟩ := moveElement_spec ideal hk h hmoved ham (by omega)
    have hperm : (xs ++ a :: moved).Perm (a :: xs ++ moved) := List.perm_middle
    obtain ⟨e', moved', chains', hrun, h', hmoved', hkept⟩ := ih h₁
      (hfollows.2.congr fun x hx => hkept₁ x (hxs x hx))
      (hperm.nodup_iff.2 (List.nodup_cons.2 ⟨ha, hrest⟩))
      (by rw [hperm.length_eq, List.cons_append, List.length_cons, List.length_append]; exact hlen)
    refine ⟨e', moved', chains', ?_, h', hmoved'.trans hperm, fun z hz => ?_⟩
    · change (moveElement hashv (2 ^ k) ideal a e >>= fun e' =>
        moveChain hashv (2 ^ k) ideal xs.length (e.chain.next a) e') = _
      rw [hmove, hfollows.1]
      exact hrun
    · rw [hkept z fun hmem => hz (hperm.mem_iff.1 hmem)]
      apply hkept₁ z
      exact fun hmem => hz (hperm.mem_iff.1 (List.mem_append_right _ hmem))

/-- The items of the buckets from `i` on are moved.  No chain that is still to be moved has met a write to its
`next` fields. -/
theorem moveBuckets_spec (hk : k ≤ 30) {chain : Links α} {bkt : α → ℕ} {buckets : List (UtHashBucket α)}
    {items : List α} {old : ℕ → List α} (hold : Chains chain bkt (2 ^ k) buckets items old)
    (hitems : items.Nodup) (hlen : items.length < 2 ^ 32) {todo i : ℕ} (hi : i + todo = 2 ^ k)
    (e : Expansion α) {moved : List α} {chains : ℕ → List α}
    (h : Chains e.chain (newBkt hashv k) (2 ^ (k + 1)) e.newBuckets moved chains)
    (hmoved : ∀ a ∈ moved, a ∈ items ∧ bkt a < i) (hnodup : moved.Nodup)
    (hfollows : ∀ j, i ≤ j → j < 2 ^ k → Follows e.chain.next (old j)) :
    ∃ e' moved' chains', moveBuckets hashv (2 ^ k) ideal buckets todo i e = .ok e' ∧
      Chains e'.chain (newBkt hashv k) (2 ^ (k + 1)) e'.newBuckets moved' chains' ∧
      moved'.Perm ((List.range' i todo).flatMap old ++ moved) := by
  induction todo generalizing i e moved chains with
  | zero => exact ⟨e, moved, chains, rfl, h, .refl _⟩
  | succ todo ih =>
    have hik : i < 2 ^ k := by omega
    obtain ⟨m, hcell⟩ := hold.cell i hik
    have hin : ∀ a ∈ old i ++ moved, a ∈ items ∧ bkt a < i + 1 := by
      intro a ha
      rcases List.mem_append.1 ha with hai | ham
      · obtain ⟨hai, hbkt⟩ := (hold.mem hik).1 hai
        exact ⟨hai, by omega⟩
      · obtain ⟨hai, hbkt⟩ := hmoved a ham
        exact ⟨hai, by omega⟩
    have hboth : (old i ++ moved).Nodup := by
      rw [List.nodup_append]
      refine ⟨hold.nodup hitems hik, hnodup, ?_⟩
      rintro a hai b hbm rfl
      have hlt := (hmoved a hbm).2
      have heq := ((hold.mem hik).1 hai).2
      omega
    have hshort : (old i ++ moved).length < 2 ^ 32 := by
      have := (List.subperm_of_subset hboth fun a ha => (hin a ha).1).length_le
      omega
    obtain ⟨e₁, moved₁, chains₁, hchain, h₁, hperm₁, hkept⟩ :=
      moveChain_spec ideal hk h (hfollows i le_rfl hik) hboth hshort
    have hfollows₁ : ∀ j, i + 1 ≤ j → j < 2 ^ k → Follows e₁.chain.next (old j) := by
      intro j hij hjk
      apply (hfollows j (by omega) hjk).congr
      intro x hx
      apply hkept x
      intro hmem
      have hlt := (hin x hmem).2
      have heq := ((hold.mem hjk).1 hx).2
      omega
    obtain ⟨e', moved', chains', hrun, h', hperm⟩ := ih (i := i + 1) (by omega) e₁ h₁
      (fun a ha => hin a (hperm₁.mem_iff.1 ha)) (hperm₁.nodup_iff.2 hboth) hfollows₁
    refine ⟨e', moved', chains', ?_, h', hperm.trans ?_⟩
    · rw [moveBuckets, bucketAt_eq_ok hcell]
      change (moveChain hashv (2 ^ k) ideal (old i).length (old i).head? e >>= _) = _
      rw [hchain]
      exact hrun
    · have hrest : ((List.range' (i + 1) todo).flatMap old ++ moved₁).Perm
          ((List.range' (i + 1) todo).flatMap old ++ (old i ++ moved)) := hperm₁.append_left _
      rw [List.range'_succ, List.flatMap_cons]
      apply hrest.trans
      rw [← List.append_assoc]
      exact List.perm_append_comm.append_right _

/-- What an operation leaves alone in a table. -/
structure SameItems (tbl tbl' : UtHashTable α) : Prop where
  numItems : tbl'.numItems = tbl.numItems
  tail : tbl'.tail = tbl.tail

/-- The items of a table are in its buckets, of which there are a power of two. -/
structure Filled (chain : Links α) (hashv : α → UInt32) (tbl : UtHashTable α) (items : List α) : Prop where
  width : tbl.log2NumBuckets ≤ 31 ∧ tbl.numBuckets = 2 ^ tbl.log2NumBuckets
  chains : ∃ chains, Chains chain (fun a => hashToBkt (hashv a) tbl.numBuckets) tbl.numBuckets tbl.buckets
    items chains

/-- An allocator that has less than 64 GiB. -/
def Heap.Bounded (heap : Heap) : Prop := ∀ n, heap.serves n = true → n < 2 ^ 36

/-- The expansion keeps the items, unless the process ends for want of memory. -/
theorem hashExpandBuckets_spec {heap : Heap} (hheap : heap.Bounded) {chain : Links α}
    {tbl : UtHashTable α} {items : List α} (h : Filled chain hashv tbl items) (hnodup : items.Nodup)
    (hlen : items.length < 2 ^ 32) :
    hashExpandBuckets heap hashv chain tbl = .error .outOfMemory ∨
      ∃ chain' tbl', hashExpandBuckets heap hashv chain tbl = .ok (chain', tbl') ∧
        Filled chain' hashv tbl' items ∧ SameItems tbl tbl' := by
  obtain ⟨⟨hk31, hwidth⟩, old, hold⟩ := h
  by_cases hserves : heap.serves (sizeofUtHashBucket * tbl.numBuckets * 2) = true
  · right
    have hk : tbl.log2NumBuckets ≤ 30 := by
      have hlt := hheap _ hserves
      rw [hwidth] at hlt
      by_contra hgt
      have hk : tbl.log2NumBuckets = 31 := by omega
      rw [hk] at hlt
      exact absurd hlt (by decide)
    have hdouble : u32 (2 ^ tbl.log2NumBuckets * 2) = 2 ^ (tbl.log2NumBuckets + 1) := by
      have hle : 2 ^ (tbl.log2NumBuckets + 1) ≤ 2 ^ 31 := Nat.pow_le_pow_right (by omega) (by omega)
      rw [← pow_succ]
      exact u32_of_lt (by omega)
    have hlog : u32 (tbl.log2NumBuckets + 1) = tbl.log2NumBuckets + 1 := u32_of_lt (by omega)
    have hempty : Chains chain (newBkt hashv tbl.log2NumBuckets) (2 ^ (tbl.log2NumBuckets + 1))
        (List.replicate (2 ^ tbl.log2NumBuckets * 2) ⟨none, 0, 0⟩) [] fun _ => [] := by
      rw [← pow_succ]
      exact .empty _ _ _
    rw [hwidth] at hold
    have hmove := fun ideal => moveBuckets_spec ideal hk hold hnodup hlen
      (show 0 + 2 ^ tbl.log2NumBuckets = 2 ^ tbl.log2NumBuckets from Nat.zero_add _)
      ⟨chain, List.replicate (2 ^ tbl.log2NumBuckets * 2) ⟨none, 0, 0⟩, 0⟩ hempty
      (fun a ha => absurd ha List.not_mem_nil) List.nodup_nil
      (fun j _ hj => (hold.linked j hj).follows)
    have hexpand : ∃ (e' : Expansion α) (tbl' : UtHashTable α),
        hashExpandBuckets heap hashv chain tbl = .ok (e'.chain, tbl') ∧ tbl'.buckets = e'.newBuckets ∧
        tbl'.numBuckets = u32 (tbl.numBuckets * 2) ∧ tbl'.log2NumBuckets = u32 (tbl.log2NumBuckets + 1) ∧
        SameItems tbl tbl' ∧
        ∃ moved chains, Chains e'.chain (newBkt hashv tbl.log2NumBuckets) (2 ^ (tbl.log2NumBuckets + 1))
          e'.newBuckets moved chains ∧
          moved.Perm ((List.range' 0 (2 ^ tbl.log2NumBuckets)).flatMap old ++ []) := by
      rw [hashExpandBuckets, hserves, if_neg (by decide)]
      dsimp only
      obtain ⟨e', moved, chains, hrun, h', hperm⟩ := hmove (u32 ((tbl.numItems >>> (tbl.log2NumBuckets + 1)) +
        if tbl.numItems &&& u32 (u32 (tbl.numBuckets * 2) + 2 ^ 32 - 1) ≠ 0 then 1 else 0))
      rw [← hwidth] at hrun
      rw [hrun]
      exact ⟨e', _, rfl, rfl, rfl, rfl, ⟨rfl, rfl⟩, moved, chains, h', hperm⟩
    obtain ⟨e', tbl', hexpand, hbuckets, hnum, hlog', hsame, moved, chains, h', hperm⟩ := hexpand
    have hall : moved.Perm items := by
      rw [List.append_nil, ← List.range_eq_range'] at hperm
      exact hperm.trans (hold.flatMap_perm hnodup fun a _ => hashToBkt_lt _ hk31)
    rw [hwidth, hdouble] at hnum
    rw [hlog] at hlog'
    refine ⟨_, tbl', hexpand, ⟨⟨?_, ?_⟩, chains, ?_⟩, hsame⟩
    · rw [hlog']
      exact Nat.succ_le_succ hk
    · rw [hnum, hlog']
    · rw [hbuckets, hnum]
      exact h'.congr_items hall
  · left
    rw [hashExpandBuckets, if_pos (by simpa using hserves)]

end Expansion

/-! ## One item -/

section Item

variable {chain : Links α} {hashv : α → UInt32} {tbl : UtHashTable α} {items : List α} {a : α}

theorem Filled.congr_items (h : Filled chain hashv tbl items) {items' : List α} (hperm : items.Perm items') :
    Filled chain hashv tbl items' := by
  obtain ⟨hwidth, chains, hchains⟩ := h
  exact ⟨hwidth, chains, hchains.congr_items hperm⟩

theorem Filled.congr_hashv (h : Filled chain hashv tbl items) {hashv' : α → UInt32}
    (hhashv : ∀ a ∈ items, hashv' a = hashv a) : Filled chain hashv' tbl items := by
  obtain ⟨hwidth, chains, hchains⟩ := h
  exact ⟨hwidth, chains, hchains.congr_bkt fun a ha => by rw [hhashv a ha]⟩

/-- A table whose other fields change is filled as before. -/
theorem Filled.congr_table (h : Filled chain hashv tbl items) {tbl' : UtHashTable α}
    (hbuckets : tbl'.buckets = tbl.buckets) (hnum : tbl'.numBuckets = tbl.numBuckets)
    (hlog : tbl'.log2NumBuckets = tbl.log2NumBuckets) : Filled chain hashv tbl' items := by
  obtain ⟨hwidth, chains, hchains⟩ := h
  refine ⟨by rw [hlog, hnum]; exact hwidth, chains, ?_⟩
  rw [hbuckets, hnum]
  exact hchains

theorem Filled.bkt_lt (h : Filled chain hashv tbl items) (hash : UInt32) :
    hashToBkt hash tbl.numBuckets < tbl.numBuckets := by
  rw [h.width.2]
  exact hashToBkt_lt hash h.width.1

/-- The search along a chain finds the first item that fits. -/
theorem UtHash.findInBkt_eq (s : UtHash α) (key : Bytes) (hashval : UInt32) {xs : List α}
    (h : Follows s.chain.next xs) :
    s.findInBkt key hashval xs.length xs.head? =
      .ok (xs.find? fun a => s.hashv a = hashval ∧ s.key a = key) := by
  induction xs with
  | nil => rfl
  | cons a xs ih =>
    rw [List.length_cons, List.head?_cons, UtHash.findInBkt, h.1, ih h.2]
    by_cases hfits : s.hashv a = hashval ∧ s.key a = key
    · rw [if_pos ⟨hfits.1, by rw [hfits.2], hfits.2⟩, List.find?_cons_of_pos (by simpa using hfits)]
      rfl
    · rw [if_neg fun hc => hfits ⟨hc.1, hc.2.2⟩, List.find?_cons_of_neg (by simpa using hfits)]

variable [DecidableEq α]

/-- A new item is put in front of the chain of its bucket. -/
theorem Filled.pushFront (h : Filled chain hashv tbl items) (hnodup : items.Nodup) (ha : a ∉ items)
    (hlen : items.length + 1 < 2 ^ 32) :
    ∃ head, tbl.buckets[hashToBkt (hashv a) tbl.numBuckets]? = some head ∧ (∀ b ∈ head.hhHead, b ∈ items) ∧
      Filled (chain.pushFront head.hhHead a) hashv { tbl with
        buckets := tbl.buckets.set (hashToBkt (hashv a) tbl.numBuckets)
          { head with hhHead := some a, count := u32 (head.count + 1) } } (a :: items) := by
  have hlt := h.bkt_lt (hashv a)
  obtain ⟨hwidth, chains, hchains⟩ := h
  obtain ⟨m, hcell⟩ := hchains.cell _ hlt
  have hcount := hchains.length_le hlt
  refine ⟨_, hcell, fun b hb => ((hchains.mem hlt).1 (List.mem_of_head? hb)).1, ?_⟩
  dsimp only
  rw [u32_of_lt (by omega)]
  exact ⟨hwidth, _, hchains.pushFront hnodup ha hlt m⟩

/-- A new item goes to its bucket, which may expand the table. -/
theorem hashAddToBkt_spec {heap : Heap} (hheap : heap.Bounded) (h : Filled chain hashv tbl items)
    (hnodup : items.Nodup) (ha : a ∉ items) (hlen : items.length + 1 < 2 ^ 32) :
    hashAddToBkt heap hashv (hashToBkt (hashv a) tbl.numBuckets) a chain tbl = .error .outOfMemory ∨
      ∃ chain' tbl',
        hashAddToBkt heap hashv (hashToBkt (hashv a) tbl.numBuckets) a chain tbl = .ok (chain', tbl') ∧
        Filled chain' hashv tbl' (a :: items) ∧ SameItems tbl tbl' := by
  obtain ⟨head, hcell, -, hfilled⟩ := h.pushFront hnodup ha hlen
  rw [hashAddToBkt, bucketAt_eq_ok hcell, HashStop.ok_bind]
  dsimp only
  split
  · rcases hashExpandBuckets_spec hheap hfilled (List.nodup_cons.2 ⟨ha, hnodup⟩) (by simpa using hlen) with
      hstop | ⟨chain', tbl', hexpand, hfilled', hsame⟩
    · exact .inl hstop
    · exact .inr ⟨chain', tbl', hexpand, hfilled', ⟨hsame.numItems, hsame.tail⟩⟩
  · exact .inr ⟨_, _, rfl, hfilled, rfl, rfl⟩

/-- An item leaves its bucket. -/
theorem hashDelInBkt_spec (h : Filled chain hashv tbl items) (hnodup : items.Nodup) (ha : a ∈ items)
    (hlen : items.length < 2 ^ 32) :
    ∃ tbl', hashDelInBkt (hashToBkt (hashv a) tbl.numBuckets) a chain tbl = .ok (chain.unlink a, tbl') ∧
      Filled (chain.unlink a) hashv tbl' (items.erase a) ∧ SameItems tbl tbl' := by
  obtain ⟨hwidth, chains, hchains⟩ := h
  have hlt : hashToBkt (hashv a) tbl.numBuckets < tbl.numBuckets := Filled.bkt_lt ⟨hwidth, chains, hchains⟩ _
  obtain ⟨m, hcell⟩ := hchains.cell _ hlt
  have hmem : a ∈ chains (hashToBkt (hashv a) tbl.numBuckets) := (hchains.mem hlt).2 ⟨ha, rfl⟩
  have hpos := List.length_pos_of_mem hmem
  have hcount := hchains.length_le hlt
  set bkt := hashToBkt (hashv a) tbl.numBuckets with hbkt
  have hdecrement : u32 ((chains bkt).length + 2 ^ 32 - 1) = (chains bkt).length - 1 := by
    unfold u32
    omega
  have hfilled : Filled (chain.unlink a) hashv { tbl with
      buckets := tbl.buckets.set bkt ⟨if (chains bkt).head? = some a then chain.next a
        else (chains bkt).head?, (chains bkt).length - 1, m⟩ } (items.erase a) :=
    ⟨hwidth, _, hchains.unlink hnodup ha hlt m⟩
  refine ⟨_, ?_, hfilled, rfl, rfl⟩
  rw [hashDelInBkt, bucketAt_eq_ok hcell, HashStop.ok_bind, ← hdecrement]
  rfl

end Item

end ChatRooms
