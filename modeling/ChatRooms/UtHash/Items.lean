import ChatRooms.UtHash.Chains

/-!
# What the hash table holds

`Represents s items` says that the elements of a hash are `items`, in the order of their addition: they form
the doubly linked list behind the head, they are in the buckets, and the counters count them.

* `hashFind_eq`, `hashAdd_spec` and `hashDelete_spec` say what the operations do to the items.
* `hashFsck_of_represents`: the library's own integrity check finds nothing.
-/

namespace ChatRooms

variable {α : Type}

/-- The elements behind the head `first` and the table `tbl`. -/
structure Holds (s : UtHash α) (first : α) (tbl : UtHashTable α) (items : List α) : Prop where
  head : items.head? = some first
  nodup : items.Nodup
  app : Seg s.app none items none
  tail : items.getLast? = some tbl.tail
  numItems : tbl.numItems = items.length
  filled : Filled s.chain s.hashv tbl items

/-- The elements of the hash, in the order of their addition. -/
def UtHash.Represents (s : UtHash α) (items : List α) : Prop :=
  match s.head with
  | none => items = []
  | some (first, tbl) => Holds s first tbl items

/-- Every handle carries the hash value of its key, and no two keys are the same. -/
structure Hashed (s : UtHash α) (items : List α) : Prop where
  hashv : ∀ a ∈ items, s.hashv a = hashJen (s.key a)
  inj : ∀ a ∈ items, ∀ b ∈ items, s.key a = s.key b → a = b

/-- There is no head and no element, or a head and a table that hold the elements. -/
theorem UtHash.Represents.empty_or_holds {s : UtHash α} {items : List α} (h : s.Represents items) :
    (s.head = none ∧ items = []) ∨ ∃ first tbl, s.head = some (first, tbl) ∧ Holds s first tbl items := by
  cases hhead : s.head with
  | none =>
    rw [Represents, hhead] at h
    exact .inl ⟨rfl, h⟩
  | some found =>
    rw [Represents, hhead] at h
    exact .inr ⟨found.1, found.2, rfl, h⟩

theorem UtHash.Represents.nodup {s : UtHash α} {items : List α} (h : s.Represents items) : items.Nodup := by
  rcases h.empty_or_holds with ⟨-, rfl⟩ | ⟨first, tbl, -, h⟩
  · exact List.nodup_nil
  · exact h.nodup

/-! ## Searching -/

/-- The first one is found in any list when there is no second one. -/
theorem find?_eq_of_unique {xs ys : List α} {p q : α → Bool} (hsame : ∀ a, a ∈ xs ∧ p a ↔ a ∈ ys ∧ q a)
    (hunique : ∀ a ∈ ys, ∀ b ∈ ys, q a → q b → a = b) : xs.find? p = ys.find? q := by
  cases hy : ys.find? q with
  | none =>
    rw [List.find?_eq_none] at hy ⊢
    intro a ha hp
    obtain ⟨hay, hq⟩ := (hsame a).1 ⟨ha, hp⟩
    exact hy a hay hq
  | some b =>
    have hb : b ∈ ys ∧ q b = true := ⟨List.mem_of_find?_eq_some hy, List.find?_some hy⟩
    obtain ⟨hbx, hpb⟩ := (hsame b).2 hb
    cases hx : xs.find? p with
    | none =>
      rw [List.find?_eq_none] at hx
      exact absurd hpb (hx b hbx)
    | some a =>
      obtain ⟨ha, hqa⟩ := (hsame a).1 ⟨List.mem_of_find?_eq_some hx, List.find?_some hx⟩
      rw [hunique a ha b hb.1 hqa hb.2]

/-- A search finds the element with the key. -/
theorem hashFind_eq [DecidableEq α] {s : UtHash α} {items : List α} (h : s.Represents items) (hashed : Hashed s items)
    (key : Bytes) : hashFind s key = .ok (items.find? (s.key · = key)) := by
  unfold hashFind
  rcases h.empty_or_holds with ⟨hhead, rfl⟩ | ⟨first, tbl, hhead, h⟩
  · rw [hhead]
    rfl
  · rw [hhead]
    obtain ⟨-, chains, hchains⟩ := id h.filled
    have hlt := h.filled.bkt_lt (hashJen key)
    obtain ⟨m, hcell⟩ := hchains.cell _ hlt
    dsimp only
    rw [bucketAt_eq_ok hcell, HashStop.ok_bind, s.findInBkt_eq key _ (hchains.linked _ hlt).follows]
    congr 1
    apply find?_eq_of_unique
    · intro a
      rw [hchains.mem hlt]
      simp only [decide_eq_true_eq]
      constructor
      · rintro ⟨⟨ha, -⟩, -, hkey⟩
        exact ⟨ha, hkey⟩
      · rintro ⟨ha, rfl⟩
        rw [hashed.hashv a ha]
        exact ⟨⟨ha, rfl⟩, rfl, rfl⟩
    · intro a ha b hb hka hkb
      rw [decide_eq_true_eq] at hka hkb
      exact hashed.inj a ha b hb (hka.trans hkb.symm)

/-! ## Adding -/

theorem hashMakeTable_eq_ok {heap : Heap} {a : α} {tbl : UtHashTable α}
    (h : hashMakeTable heap a = .ok tbl) (chain : Links α) (hashv : α → UInt32) :
    Filled chain hashv tbl [] ∧ tbl.numItems = 0 ∧ tbl.tail = a := by
  unfold hashMakeTable at h
  split at h
  · cases h
  · split at h
    · cases h
    · cases h
      have hlog : hashInitialNumBucketsLog2 ≤ 31 := by decide
      exact ⟨⟨⟨hlog, rfl⟩, _, Chains.empty _ _ _⟩, rfl, rfl⟩

section Edits

variable [DecidableEq α]

/-- The end of an addition: the element is in the list of all elements and goes to its bucket. -/
theorem hashAddToTable_spec {heap : Heap} (hheap : heap.Bounded) {s : UtHash α} {first add : α}
    {tbl : UtHashTable α} {items : List α} (hhead : (items ++ [add]).head? = some first)
    (hnodup : items.Nodup) (hadd : add ∉ items) (happ : Seg s.app none (items ++ [add]) none)
    (htail : tbl.tail = add) (hnum : tbl.numItems = items.length) (hlen : items.length + 1 < 2 ^ 32)
    (hfilled : Filled s.chain s.hashv tbl items) :
    hashAddToTable heap s first add tbl = .error .outOfMemory ∨
      ∃ s', hashAddToTable heap s first add tbl = .ok s' ∧ s'.Represents (items ++ [add]) ∧
        s'.key = s.key ∧ s'.hashv = s.hashv := by
  have hcounted : Filled s.chain s.hashv { tbl with numItems := u32 (tbl.numItems + 1) } items :=
    hfilled.congr_table rfl rfl rfl
  unfold hashAddToTable
  rcases hashAddToBkt_spec hheap hcounted hnodup hadd hlen with hstop | ⟨chain', tbl', hbkt, hfilled', hsame⟩
  · left
    dsimp only at hstop ⊢
    rw [hstop]
    rfl
  · right
    dsimp only at hbkt ⊢
    rw [hbkt]
    refine ⟨{ s with chain := chain', head := some (first, tbl') }, rfl, ⟨hhead, ?_, happ, ?_, ?_, ?_⟩, rfl, rfl⟩
    · exact List.nodup_append_comm.1 (List.nodup_cons.2 ⟨hadd, hnodup⟩)
    · rw [List.getLast?_concat, hsame.tail, htail]
    · rw [hsame.numItems, List.length_append, List.length_singleton]
      change u32 (tbl.numItems + 1) = _
      rw [hnum, u32_of_lt hlen]
    · exact hfilled'.congr_items (List.perm_append_singleton add items).symm

/-- An addition puts the new element behind the others, or ends the process for want of memory. -/
theorem hashAdd_spec {heap : Heap} (hheap : heap.Bounded) {s : UtHash α} {items : List α}
    (h : s.Represents items) {add : α} (hadd : add ∉ items) (hlen : items.length + 1 < 2 ^ 32) (key : Bytes) :
    hashAdd heap s key add = .error .outOfMemory ∨
      ∃ s', hashAdd heap s key add = .ok s' ∧ s'.Represents (items ++ [add]) ∧
        s'.key = Function.update s.key add key ∧ s'.hashv = Function.update s.hashv add (hashJen key) := by
  unfold hashAdd
  rcases h.empty_or_holds with ⟨hhead, rfl⟩ | ⟨first, tbl, hhead, h⟩
  · dsimp only
    rw [hhead]
    cases htable : hashMakeTable heap add with
    | error e =>
      left
      unfold hashMakeTable at htable
      split at htable
      · cases htable
        rfl
      · split at htable
        · cases htable
          rfl
        · cases htable
    | ok tbl =>
      obtain ⟨hfilled, hnum, htail⟩ := hashMakeTable_eq_ok htable s.chain
        (Function.update s.hashv add (hashJen key))
      apply hashAddToTable_spec hheap rfl (List.nodup_nil : ([] : List α).Nodup) hadd _ htail hnum hlen hfilled
      exact ⟨by simp, by simp, trivial⟩
  · dsimp only
    rw [hhead]
    obtain ⟨xs, b, rfl⟩ : ∃ xs b, items = xs ++ [b] := by
      rcases List.eq_nil_or_concat items with rfl | ⟨xs, b, rfl⟩
      · cases h.head
      · exact ⟨xs, b, List.concat_eq_append⟩
    have htail : tbl.tail = b := by
      have := h.tail
      rw [List.getLast?_concat] at this
      exact (Option.some.inj this).symm
    have hnum : ({ tbl with tail := add } : UtHashTable α).numItems = (xs ++ [b]).length := h.numItems
    dsimp only
    apply hashAddToTable_spec hheap _ h.nodup hadd _ rfl hnum hlen
    · have hhashv : ∀ a ∈ xs ++ [b], Function.update s.hashv add (hashJen key) a = s.hashv a :=
        fun a ha => Function.update_of_ne (ne_of_mem_of_not_mem ha hadd) _ _
      exact (h.filled.congr_hashv hhashv).congr_table rfl rfl rfl
    · rw [List.head?_append, h.head]
      rfl
    · dsimp only
      rw [htail]
      exact h.app.pushBack h.nodup hadd

/-! ## Deleting -/

/-- A deletion takes out its element and leaves the others in their order. -/
theorem hashDelete_spec {s : UtHash α} {items : List α} (h : s.Represents items) {del : α}
    (hdel : del ∈ items) (hlen : items.length < 2 ^ 32) :
    ∃ s', hashDelete s del = .ok s' ∧ s'.Represents (items.erase del) ∧ s'.key = s.key ∧
      s'.hashv = s.hashv := by
  unfold hashDelete
  rcases h.empty_or_holds with ⟨hhead, rfl⟩ | ⟨first, tbl, hhead, h⟩
  · cases hdel
  rw [hhead]
  obtain ⟨xs, ys, rfl⟩ := List.append_of_mem hdel
  obtain ⟨hprev, hnext⟩ := h.app.neighbours
  have hxs : del ∉ xs := fun hx => (List.nodup_append.1 h.nodup).2.2 del hx del List.mem_cons_self rfl
  have hys : del ∉ ys := (List.nodup_cons.1 (List.nodup_append.1 h.nodup).2.1).1
  have herase : (xs ++ del :: ys).erase del = xs ++ ys := by
    rw [List.erase_append_right _ hxs, List.erase_cons_head]
  dsimp only
  by_cases hlast : xs.getLast? = none ∧ ys.head? = none
  · rw [hprev, hnext, if_pos hlast]
    refine ⟨_, rfl, ?_, rfl, rfl⟩
    rw [herase, List.getLast?_eq_none_iff.1 hlast.1, List.head?_eq_none_iff.1 hlast.2]
    rfl
  · rw [hprev, hnext, if_neg hlast]
    -- The tail moves when the last element goes, and the head when the first one does.
    have htail : ∃ tail, tailWithout s.app del tbl.tail = .ok tail ∧ (xs ++ ys).getLast? = some tail := by
      have hold := h.tail
      rw [tailWithout, hprev]
      rw [List.getLast?_append, List.getLast?_cons] at hold
      cases hy : ys.getLast? with
      | none =>
        rw [hy] at hold
        have hyn : ys = [] := List.getLast?_eq_none_iff.1 hy
        subst hyn
        cases hx : xs.getLast? with
        | none => exact absurd ⟨hx, rfl⟩ hlast
        | some p =>
          refine ⟨p, if_pos (Option.some.inj hold), ?_⟩
          rw [List.append_nil, hx]
      | some t =>
        rw [hy] at hold
        have ht : t = tbl.tail := Option.some.inj hold
        subst ht
        have hne : del ≠ tbl.tail := fun he => hys (he ▸ List.mem_of_getLast? hy)
        refine ⟨_, if_neg hne, ?_⟩
        rw [List.getLast?_append, hy]
        rfl
    have hfirst : ∃ first', headWithout s.app del first = .ok first' ∧ (xs ++ ys).head? = some first' := by
      have hold := h.head
      rw [headWithout, hprev, hnext]
      cases hx : xs.getLast? with
      | none =>
        have hxn : xs = [] := List.getLast?_eq_none_iff.1 hx
        subst hxn
        cases hy : ys.head? with
        | none => exact absurd ⟨rfl, hy⟩ hlast
        | some n => exact ⟨n, rfl, hy⟩
      | some p =>
        obtain ⟨x, xs', rfl⟩ := List.exists_cons_of_ne_nil (List.ne_nil_of_mem (List.mem_of_getLast? hx))
        exact ⟨first, rfl, hold⟩
    obtain ⟨tail', htail, hlast'⟩ := htail
    obtain ⟨first', hfirst, hhead'⟩ := hfirst
    have hfilled : Filled s.chain s.hashv { tbl with tail := tail' } (xs ++ del :: ys) :=
      h.filled.congr_table rfl rfl rfl
    obtain ⟨tbl', hbkt, hfilled', hsame⟩ := hashDelInBkt_spec hfilled h.nodup hdel hlen
    rw [htail, HashStop.ok_bind, hfirst, HashStop.ok_bind]
    dsimp only at hbkt
    rw [hbkt, HashStop.ok_bind]
    refine ⟨_, rfl, ?_, rfl, rfl⟩
    rw [herase] at hfilled' ⊢
    refine ⟨hhead', ?_, h.app.unlink h.nodup, ?_, ?_, hfilled'.congr_table rfl rfl rfl⟩
    · rw [← herase]
      exact h.nodup.erase del
    · change _ = some tbl'.tail
      rw [hlast', hsame.tail]
    · change u32 (tbl'.numItems + 2 ^ 32 - 1) = _
      have hnum : tbl'.numItems = (xs ++ del :: ys).length := hsame.numItems.trans h.numItems
      rw [hnum]
      simp only [List.length_append, List.length_cons] at hlen ⊢
      unfold u32
      omega

end Edits

/-! ## The integrity check -/

theorem fsckWalk_eq {l : Links α} [DecidableEq α] {before : Option α} {xs : List α} (h : Seg l before xs none) :
    fsckWalk l xs.length before xs.head? = some xs.length := by
  induction xs generalizing before with
  | nil => rfl
  | cons x xs ih =>
    obtain ⟨hprev, hnext, hrest⟩ := h
    rw [Option.or_none] at hnext
    rw [List.length_cons, List.head?_cons, fsckWalk, hprev, if_neg (not_not.2 rfl), hnext, ih hrest]
    rfl

theorem fsckBuckets_eq [DecidableEq α] {chain : Links α} {bkt : α → ℕ} {n : ℕ} {buckets : List (UtHashBucket α)}
    {items : List α} {chains : ℕ → List α} (h : Chains chain bkt n buckets items chains) {todo i : ℕ}
    (hi : i + todo = n) :
    fsckBuckets chain (buckets.drop i) = some ((List.range' i todo).flatMap chains).length := by
  induction todo generalizing i with
  | zero =>
    rw [List.drop_eq_nil_of_le (by rw [h.length]; omega)]
    rfl
  | succ todo ih =>
    have hlt : i < buckets.length := by
      rw [h.length]
      omega
    obtain ⟨m, hcell⟩ := h.cell i (by omega)
    rw [List.getElem?_eq_getElem hlt] at hcell
    rw [List.drop_eq_getElem_cons hlt, Option.some.inj hcell, fsckBuckets]
    dsimp only
    rw [fsckWalk_eq (h.linked i (by omega)), ih (by omega), List.range'_succ, List.flatMap_cons,
      List.length_append]
    change (if _ then _ else _ : Option ℕ) = _
    rw [if_neg (not_not.2 rfl)]
    rfl

/-- The integrity check of the library finds nothing in a table that represents its items. -/
theorem hashFsck_of_represents [DecidableEq α] {s : UtHash α} {items : List α} (h : s.Represents items) :
    hashFsck s = true := by
  unfold hashFsck
  rcases h.empty_or_holds with ⟨hhead, rfl⟩ | ⟨first, tbl, hhead, h⟩
  · rw [hhead]
  · rw [hhead]
    obtain ⟨-, chains, hchains⟩ := id h.filled
    have hall := hchains.flatMap_perm h.nodup fun a _ => h.filled.bkt_lt _
    have hbuckets := fsckBuckets_eq hchains (Nat.zero_add tbl.numBuckets)
    rw [← List.range_eq_range', hall.length_eq, List.drop_zero] at hbuckets
    dsimp only
    rw [List.take_of_length_le hchains.length.le, hbuckets, h.numItems, ← h.head, fsckWalk_eq h.app]
    simp

end ChatRooms
