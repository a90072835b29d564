import ChatRooms.Lib.Blocks
import ChatRooms.UtHash.Items

/-!
# The blocks of the hash table

The macros of `lib/uthash.h` once more, with the blocks that they use: the elements, the table and its buckets.
An element is used wherever a field of its handle is read or written, also when it is reached through the links
of another one.

A `Runs` lemma for each of them: in a hash that represents its elements it does what the plain one does, and the
blocks in use stay those of the table, and the others.
-/

namespace ChatRooms

/-- The addresses of a table and of its buckets. -/
structure TableBlocks (A : Type) where
  tbl : A
  buckets : A

/-- The blocks of the table behind the head. -/
def UtHash.tableBlocks {A : Type} (s : UtHash A) (t : TableBlocks A) : Multiset A :=
  match s.head with
  | none => 0
  | some _ => t.tbl ::ₘ {t.buckets}

theorem UtHash.tableBlocks_of_none {A : Type} {s : UtHash A} (h : s.head = none) (t : TableBlocks A) :
    s.tableBlocks t = 0 := by
  rw [tableBlocks, h]

theorem UtHash.tableBlocks_of_some {A : Type} {s : UtHash A} {head : A × UtHashTable A} (h : s.head = some head)
    (t : TableBlocks A) (others : Multiset A) : s.tableBlocks t + others = t.tbl ::ₘ t.buckets ::ₘ others := by
  rw [tableBlocks, h]
  simp

/-- The elements at the front of the buckets are blocks in use. -/
def HeadsIn {A : Type} (live : Multiset A) (buckets : List (UtHashBucket A)) : Prop :=
  ∀ b ∈ buckets, ∀ a ∈ b.hhHead, a ∈ live

theorem mem_of_bucketAt {A : Type} {buckets : List (UtHashBucket A)} {bkt : ℕ} {b : UtHashBucket A}
    (h : bucketAt buckets bkt = .ok b) : b ∈ buckets := by
  unfold bucketAt at h
  cases hb : buckets[bkt]? with
  | none =>
    rw [hb] at h
    cases h
  | some found =>
    rw [hb] at h
    cases h
    exact List.mem_of_getElem? hb

/-- The first element stays, or its successor takes its place. -/
theorem headWithout_eq_ok {A : Type} {app : Links A} {del first first' : A}
    (h : headWithout app del first = .ok first') : first' = first ∨ first' ∈ app.next del := by
  unfold headWithout at h
  cases hprev : app.prev del with
  | some p =>
    rw [hprev] at h
    cases h
    exact .inl rfl
  | none =>
    cases hnext : app.next del with
    | some n =>
      rw [hprev, hnext] at h
      cases h
      exact .inr rfl
    | none =>
      rw [hprev, hnext] at h
      cases h

namespace Heaped

variable {A : Type} [DecidableEq A] (malloc : Allocator A)

/-! ## Expansion -/

/-- The body of the inner loop, which reads and writes the new buckets at `newBuckets`. -/
def moveElement (newBuckets : A) (hashv : A → UInt32) (numBuckets ideal : ℕ) (thh : A) (e : Expansion A) :
    OnHeap A HashStop (Expansion A) := do
  OnHeap.access newBuckets
  let bkt := hashToBkt (hashv thh) (u32 (numBuckets * 2))
  let newbkt ← OnHeap.lift (bucketAt e.newBuckets bkt)
  let count := u32 (newbkt.count + 1)
  let expandMult :=
    if count > ideal ∧ count > u32 (newbkt.expandMult * ideal) then u32 (newbkt.expandMult + 1)
    else newbkt.expandMult
  OnHeap.accessAt newbkt.hhHead
  return {
    chain := e.chain.pushFront newbkt.hhHead thh
    newBuckets := e.newBuckets.set bkt ⟨some thh, count, expandMult⟩
    nonidealItems := if count > ideal then u32 (e.nonidealItems + 1) else e.nonidealItems }

def moveChain (newBuckets : A) (hashv : A → UInt32) (numBuckets ideal : ℕ) :
    ℕ → Option A → Expansion A → OnHeap A HashStop (Expansion A)
  | _, none, e => return e
  | 0, some _, _ => OnHeap.lift (.error .endless)
  | fuel + 1, some thh, e => do
    OnHeap.access thh
    let next := e.chain.next thh
    let e ← moveElement newBuckets hashv numBuckets ideal thh e
    moveChain newBuckets hashv numBuckets ideal fuel next e

/-- The outer loop, which reads the old buckets at `oldBuckets`. -/
def moveBuckets (oldBuckets newBuckets : A) (hashv : A → UInt32) (numBuckets ideal : ℕ)
    (buckets : List (UtHashBucket A)) : ℕ → ℕ → Expansion A → OnHeap A HashStop (Expansion A)
  | 0, _, e => return e
  | todo + 1, i, e => do
    OnHeap.access oldBuckets
    let bucket ← OnHeap.lift (bucketAt buckets i)
    let e ← moveChain newBuckets hashv numBuckets ideal bucket.count bucket.hhHead e
    moveBuckets oldBuckets newBuckets hashv numBuckets ideal buckets todo (i + 1) e

/-- The new buckets take the place of the old ones. -/
def hashExpandBuckets (heap : Heap) (hashv : A → UInt32) (chain : Links A) (tbl : UtHashTable A)
    (t : TableBlocks A) : OnHeap A HashStop (Links A × UtHashTable A × TableBlocks A) :=
  if !heap.serves (sizeofUtHashBucket * tbl.numBuckets * 2) then OnHeap.lift (.error .outOfMemory)
  else do
    let newBuckets ← OnHeap.alloc malloc
    OnHeap.access t.tbl
    let ideal := u32 ((tbl.numItems >>> (tbl.log2NumBuckets + 1)) +
      if tbl.numItems &&& u32 (u32 (tbl.numBuckets * 2) + 2 ^ 32 - 1) ≠ 0 then 1 else 0)
    let e ← moveBuckets t.buckets newBuckets hashv tbl.numBuckets ideal tbl.buckets tbl.numBuckets 0
      ⟨chain, List.replicate (tbl.numBuckets * 2) ⟨none, 0, 0⟩, 0⟩
    OnHeap.free t.buckets
    let ineffExpands := if e.nonidealItems > tbl.numItems >>> 1 then u32 (tbl.ineffExpands + 1) else 0
    let tbl := { tbl with
      buckets := e.newBuckets
      numBuckets := u32 (tbl.numBuckets * 2)
      log2NumBuckets := u32 (tbl.log2NumBuckets + 1)
      idealChainMaxlen := ideal
      nonidealItems := e.nonidealItems
      ineffExpands := ineffExpands
      noexpand := tbl.noexpand || decide (ineffExpands > 1) }
    return (e.chain, tbl, { t with buckets := newBuckets })

/-! ## Buckets -/

def hashAddToBkt (heap : Heap) (hashv : A → UInt32) (bkt : ℕ) (add : A) (chain : Links A) (tbl : UtHashTable A)
    (t : TableBlocks A) : OnHeap A HashStop (Links A × UtHashTable A × TableBlocks A) := do
  OnHeap.access t.buckets
  let head ← OnHeap.lift (bucketAt tbl.buckets bkt)
  let count := u32 (head.count + 1)
  OnHeap.access add
  OnHeap.accessAt head.hhHead
  let chain := chain.pushFront head.hhHead add
  let tbl := { tbl with buckets := tbl.buckets.set bkt { head with hhHead := some add, count } }
  if count ≥ u32 (u32 (head.expandMult + 1) * hashBktCapacityThresh) ∧ ¬ tbl.noexpand then
    hashExpandBuckets malloc heap hashv chain tbl t
  else return (chain, tbl, t)

def hashDelInBkt (bkt : ℕ) (del : A) (chain : Links A) (tbl : UtHashTable A) (t : TableBlocks A) :
    OnHeap A HashStop (Links A × UtHashTable A) := do
  OnHeap.access t.buckets
  let head ← OnHeap.lift (bucketAt tbl.buckets bkt)
  OnHeap.access del
  let hhHead := if head.hhHead = some del then chain.next del else head.hhHead
  let count := u32 (head.count + 2 ^ 32 - 1)
  OnHeap.accessAt (chain.prev del)
  OnHeap.accessAt (chain.next del)
  return (chain.unlink del, { tbl with buckets := tbl.buckets.set bkt { head with hhHead, count } })

def findInBkt (s : UtHash A) (key : Bytes) (hashval : UInt32) : ℕ → Option A → OnHeap A HashStop (Option A)
  | _, none => return none
  | 0, some _ => OnHeap.lift (.error .endless)
  | fuel + 1, some out => do
    OnHeap.access out
    if s.hashv out = hashval ∧ (s.key out).length = key.length ∧ s.key out = key then return some out
    else findInBkt s key hashval fuel (s.chain.next out)

/-! ## The table's operations -/

/-- The pointer to the table is read from the first element. -/
def hashFind (s : UtHash A) (t : TableBlocks A) (key : Bytes) : OnHeap A HashStop (Option A) :=
  match s.head with
  | none => return none
  | some (first, tbl) => do
    let hashv := hashJen key
    OnHeap.access first
    OnHeap.access t.tbl
    OnHeap.access t.buckets
    let bucket ← OnHeap.lift (bucketAt tbl.buckets (hashToBkt hashv tbl.numBuckets))
    findInBkt s key hashv bucket.count bucket.hhHead

def hashMakeTable (heap : Heap) (a : A) : OnHeap A HashStop (UtHashTable A × TableBlocks A) := do
  let tbl ← OnHeap.lift (ChatRooms.hashMakeTable heap a)
  let table ← OnHeap.alloc malloc
  let buckets ← OnHeap.alloc malloc
  return (tbl, ⟨table, buckets⟩)

def hashAddToTable (heap : Heap) (s : UtHash A) (first add : A) (tbl : UtHashTable A) (t : TableBlocks A) :
    OnHeap A HashStop (UtHash A × TableBlocks A) := do
  OnHeap.access t.tbl
  let bkt := hashToBkt (s.hashv add) tbl.numBuckets
  let tbl := { tbl with numItems := u32 (tbl.numItems + 1) }
  let (chain, tbl, t) ← hashAddToBkt malloc heap s.hashv bkt add s.chain tbl t
  return ({ s with chain, head := some (first, tbl) }, t)

def hashAdd (heap : Heap) (s : UtHash A) (t : TableBlocks A) (key : Bytes) (add : A) :
    OnHeap A HashStop (UtHash A × TableBlocks A) := do
  OnHeap.access add
  let s := { s with hashv := Function.update s.hashv add (hashJen key), key := Function.update s.key add key }
  match s.head with
  | none => do
    let (tbl, t) ← hashMakeTable malloc heap add
    hashAddToTable malloc heap { s with app := (s.app.setNext add none).setPrev add none } add add tbl t
  | some (first, tbl) => do
    OnHeap.access first
    OnHeap.access t.tbl
    OnHeap.access tbl.tail
    hashAddToTable malloc heap { s with app := s.app.pushBack tbl.tail add } first add { tbl with tail := add } t

/-- The last element takes the table with it. -/
def hashDelete (s : UtHash A) (t : TableBlocks A) (del : A) : OnHeap A HashStop (UtHash A) :=
  match s.head with
  | none => OnHeap.lift (.error (.fault .null))
  | some (first, tbl) => do
    OnHeap.access del
    OnHeap.access first
    OnHeap.access t.tbl
    if s.app.prev del = none ∧ s.app.next del = none then
      OnHeap.free t.buckets
      OnHeap.free t.tbl
      return { s with head := none }
    else
      let tail ← OnHeap.lift (tailWithout s.app del tbl.tail)
      OnHeap.accessAt (s.app.prev del)
      let first ← OnHeap.lift (headWithout s.app del first)
      OnHeap.accessAt (s.app.next del)
      OnHeap.access first
      let (chain, tbl) ← hashDelInBkt (hashToBkt (s.hashv del) tbl.numBuckets) del s.chain { tbl with tail } t
      return { s with
        app := s.app.unlink del
        chain
        head := some (first, { tbl with numItems := u32 (tbl.numItems + 2 ^ 32 - 1) }) }

/-! ## Walks stay inside -/

section Walks

variable {live : Multiset A} {newBuckets : A} {hashv : A → UInt32} {numBuckets ideal : ℕ}

theorem moveElement_runs (hnew : newBuckets ∈ live) {thh : A} (hthh : thh ∈ live) {e : Expansion A}
    (hheads : HeadsIn live e.newBuckets) :
    Runs live (moveElement newBuckets hashv numBuckets ideal thh e)
      (ChatRooms.moveElement hashv numBuckets ideal thh e)
      fun a b left => a = b ∧ left = live ∧ HeadsIn live a.newBuckets ∧
        ∀ z, z ≠ thh → a.chain.next z = e.chain.next z := by
  apply Runs.access_bind hnew
  apply Runs.lift_bind
  intro newbkt hbucket
  have hfront : ∀ p ∈ newbkt.hhHead, p ∈ live := hheads newbkt (mem_of_bucketAt hbucket)
  apply Runs.accessAt_bind hfront
  refine .pure ⟨rfl, rfl, ?_, ?_⟩
  · intro b hb a ha
    rcases List.mem_or_eq_of_mem_set hb with hb | rfl
    · exact hheads b hb a ha
    · cases ha
      exact hthh
  · intro z hz
    exact e.chain.pushFront_next_of_ne _ hz

/-- The chain `xs` is moved, all of whose elements are in use. -/
theorem moveChain_runs (hnew : newBuckets ∈ live) {xs : List A} (hxs : ∀ x ∈ xs, x ∈ live) (distinct : xs.Nodup)
    {e : Expansion A} (hfollows : Follows e.chain.next xs) (hheads : HeadsIn live e.newBuckets) (fuel : ℕ) :
    Runs live (moveChain newBuckets hashv numBuckets ideal fuel xs.head? e)
      (ChatRooms.moveChain hashv numBuckets ideal fuel xs.head? e)
      fun a b left => a = b ∧ left = live ∧ HeadsIn live a.newBuckets ∧
        ∀ z, z ∉ xs → a.chain.next z = e.chain.next z := by
  induction xs generalizing fuel e with
  | nil =>
    rw [List.head?_nil, moveChain, ChatRooms.moveChain]
    exact .pure ⟨rfl, rfl, hheads, fun _ _ => rfl⟩
  | cons x xs ih =>
    cases fuel with
    | zero => exact .error _
    | succ fuel =>
      have hx : x ∈ live := hxs x List.mem_cons_self
      obtain ⟨hxrest, distinct⟩ := List.nodup_cons.1 distinct
      apply Runs.access_bind hx
      apply (moveElement_runs hnew hx hheads).bind
      rintro e' _ _ - ⟨rfl, rfl, hheads', hkept⟩
      have hfollows' : Follows e'.chain.next xs :=
        hfollows.2.congr fun y hy => hkept y (ne_of_mem_of_not_mem hy hxrest)
      rw [hfollows.1]
      apply (ih (fun y hy => hxs y (List.mem_cons_of_mem x hy)) distinct hfollows' hheads' fuel).mono
      rintro a b left ⟨rfl, rfl, hheads'', hkept'⟩
      refine ⟨rfl, rfl, hheads'', ?_⟩
      intro z hz
      obtain ⟨hzx, hzxs⟩ := not_or.1 (mt List.mem_cons.2 hz)
      rw [hkept' z hzxs, hkept z hzx]

/-- The buckets from `i` on are moved; a chain that is still to be moved has met no write to its `next` fields. -/
theorem moveBuckets_runs {oldBuckets : A} (hold : oldBuckets ∈ live) (hnew : newBuckets ∈ live)
    {chain : Links A} {bkt : A → ℕ} {n : ℕ} {buckets : List (UtHashBucket A)} {items : List A}
    {chains : ℕ → List A} (hchains : Chains chain bkt n buckets items chains) (distinct : items.Nodup)
    (hitems : ∀ a ∈ items, a ∈ live) {todo i : ℕ} (hi : i + todo = n) {e : Expansion A}
    (hfollows : ∀ j, i ≤ j → j < n → Follows e.chain.next (chains j)) (hheads : HeadsIn live e.newBuckets) :
    Runs live (moveBuckets oldBuckets newBuckets hashv numBuckets ideal buckets todo i e)
      (ChatRooms.moveBuckets hashv numBuckets ideal buckets todo i e) (Keeps live) := by
  induction todo generalizing i e with
  | zero => exact .pure ⟨rfl, rfl⟩
  | succ todo ih =>
    have hin : i < n := by omega
    obtain ⟨m, hcell⟩ := hchains.cell i hin
    apply Runs.access_bind hold
    apply Runs.lift_bind
    intro bucket hbucket
    rw [bucketAt_eq_ok hcell] at hbucket
    cases hbucket
    have hxs : ∀ x ∈ chains i, x ∈ live := fun x hx => hitems x ((hchains.mem hin).1 hx).1
    apply (moveChain_runs hnew hxs (hchains.nodup distinct hin) (hfollows i le_rfl hin) hheads _).bind
    rintro e' _ _ - ⟨rfl, rfl, hheads', hkept⟩
    refine ih (by omega) ?_ hheads'
    intro j hij hj
    apply (hfollows j (by omega) hj).congr
    intro x hx
    apply hkept x
    intro hxi
    have hj' := ((hchains.mem hj).1 hx).2
    have hi' := ((hchains.mem hin).1 hxi).2
    omega

theorem findInBkt_runs {s : UtHash A} (key : Bytes) (hashval : UInt32) {xs : List A} (hxs : ∀ x ∈ xs, x ∈ live)
    (hfollows : Follows s.chain.next xs) (fuel : ℕ) :
    Runs live (findInBkt s key hashval fuel xs.head?) (s.findInBkt key hashval fuel xs.head?)
      fun a b left => a = b ∧ left = live ∧ ∀ p ∈ a, p ∈ xs := by
  induction xs generalizing fuel with
  | nil =>
    rw [List.head?_nil, findInBkt, UtHash.findInBkt]
    exact .pure ⟨rfl, rfl, by simp⟩
  | cons x xs ih =>
    cases fuel with
    | zero => exact .error _
    | succ fuel =>
      rw [List.head?_cons, findInBkt, UtHash.findInBkt]
      apply Runs.access_bind (hxs x List.mem_cons_self)
      by_cases hfits : s.hashv x = hashval ∧ (s.key x).length = key.length ∧ s.key x = key
      · rw [if_pos hfits, if_pos hfits]
        exact .pure ⟨rfl, rfl, by simp⟩
      · rw [if_neg hfits, if_neg hfits, hfollows.1]
        apply (ih (fun y hy => hxs y (List.mem_cons_of_mem x hy)) hfollows.2 fuel).mono
        rintro a b left ⟨rfl, rfl, hfound⟩
        exact ⟨rfl, rfl, fun p hp => List.mem_cons_of_mem x (hfound p hp)⟩

end Walks

/-! ## Operations -/

section Operations

variable {malloc} {live others : Multiset A} {items : List A} {s : UtHash A} {t : TableBlocks A}

omit [DecidableEq A] in
theorem mem_of_cons {a b : A} (h : live = a ::ₘ b ::ₘ others) :
    a ∈ live ∧ b ∈ live ∧ ∀ p ∈ others, p ∈ live := by
  subst h
  refine ⟨by simp, by simp, fun p hp => ?_⟩
  exact Multiset.mem_cons_of_mem (Multiset.mem_cons_of_mem hp)

theorem hashExpandBuckets_runs (malloc : Allocator A) (heap : Heap) {hashv : A → UInt32} {chain : Links A}
    {tbl : UtHashTable A} (h : Filled chain hashv tbl items) (distinct : items.Nodup)
    (hitems : ∀ a ∈ items, a ∈ others) (hlive : live = t.tbl ::ₘ t.buckets ::ₘ others) :
    Runs live (hashExpandBuckets malloc heap hashv chain tbl t) (ChatRooms.hashExpandBuckets heap hashv chain tbl)
      fun a b left => (a.1, a.2.1) = b ∧ left = a.2.2.tbl ::ₘ a.2.2.buckets ::ₘ others := by
  obtain ⟨-, chains, hchains⟩ := h
  obtain ⟨htbl, hbuckets, hothers⟩ := mem_of_cons hlive
  unfold hashExpandBuckets ChatRooms.hashExpandBuckets
  by_cases hserves : (!heap.serves (sizeofUtHashBucket * tbl.numBuckets * 2)) = true
  · rw [if_pos hserves, if_pos hserves]
    exact .error _
  · rw [if_neg hserves, if_neg hserves]
    apply Runs.alloc_bind malloc
    intro newBuckets
    have hin : ∀ p ∈ live, p ∈ newBuckets ::ₘ live := fun p hp => Multiset.mem_cons_of_mem hp
    apply Runs.access_bind (hin _ htbl)
    have hfollows : ∀ j, 0 ≤ j → j < tbl.numBuckets → Follows chain.next (chains j) :=
      fun j _ hj => (hchains.linked j hj).follows
    have hheads : HeadsIn (newBuckets ::ₘ live)
        (List.replicate (tbl.numBuckets * 2) (⟨none, 0, 0⟩ : UtHashBucket A)) := by
      intro b hb a ha
      rw [List.eq_of_mem_replicate hb] at ha
      cases ha
    apply (moveBuckets_runs (hin _ hbuckets) (Multiset.mem_cons_self newBuckets live) hchains distinct
      (fun a ha => hin a (hothers a (hitems a ha))) (Nat.zero_add _) hfollows hheads).bind
    rintro e _ _ - ⟨rfl, rfl⟩
    have hlive' : newBuckets ::ₘ live = t.buckets ::ₘ t.tbl ::ₘ newBuckets ::ₘ others := by
      rw [hlive, Multiset.cons_swap newBuckets, Multiset.cons_swap newBuckets, Multiset.cons_swap t.tbl]
    exact .free_bind hlive' (.pure ⟨rfl, rfl⟩)

theorem hashAddToBkt_runs (malloc : Allocator A) (heap : Heap) {hashv : A → UInt32} {chain : Links A}
    {tbl : UtHashTable A} (h : Filled chain hashv tbl items) (distinct : items.Nodup)
    (hitems : ∀ a ∈ items, a ∈ others) {add : A} (hnew : add ∉ items) (hadd : add ∈ others)
    (hlen : items.length + 1 < 2 ^ 32) (hlive : live = t.tbl ::ₘ t.buckets ::ₘ others) :
    Runs live (hashAddToBkt malloc heap hashv (hashToBkt (hashv add) tbl.numBuckets) add chain tbl t)
      (ChatRooms.hashAddToBkt heap hashv (hashToBkt (hashv add) tbl.numBuckets) add chain tbl)
      fun a b left => (a.1, a.2.1) = b ∧ left = a.2.2.tbl ::ₘ a.2.2.buckets ::ₘ others := by
  obtain ⟨-, hbuckets, hothers⟩ := mem_of_cons hlive
  obtain ⟨head, hcell, hhead, hfilled⟩ := h.pushFront distinct hnew hlen
  apply Runs.access_bind hbuckets
  apply Runs.lift_bind
  intro found hfound
  rw [bucketAt_eq_ok hcell] at hfound
  cases hfound
  apply Runs.access_bind (hothers add hadd)
  apply Runs.accessAt_bind fun p hp => hothers p (hitems p (hhead p hp))
  by_cases hexpands : u32 (head.count + 1) ≥ u32 (u32 (head.expandMult + 1) * hashBktCapacityThresh) ∧ ¬ tbl.noexpand
  · rw [if_pos hexpands, if_pos hexpands]
    apply hashExpandBuckets_runs malloc heap hfilled (List.nodup_cons.2 ⟨hnew, distinct⟩) _ hlive
    intro a ha
    rcases List.mem_cons.1 ha with rfl | ha
    · exact hadd
    · exact hitems a ha
  · rw [if_neg hexpands, if_neg hexpands]
    exact .pure ⟨rfl, hlive⟩

theorem hashDelInBkt_runs {hashv : A → UInt32} {chain : Links A} {tbl : UtHashTable A}
    (h : Filled chain hashv tbl items) (hitems : ∀ a ∈ items, a ∈ others) {del : A} (hdel : del ∈ items)
    (hlive : live = t.tbl ::ₘ t.buckets ::ₘ others) :
    Runs live (hashDelInBkt (hashToBkt (hashv del) tbl.numBuckets) del chain tbl t)
      (ChatRooms.hashDelInBkt (hashToBkt (hashv del) tbl.numBuckets) del chain tbl) (Keeps live) := by
  obtain ⟨-, hbuckets, hothers⟩ := mem_of_cons hlive
  have hlt := h.bkt_lt (hashv del)
  obtain ⟨-, chains, hchains⟩ := h
  have hmem : del ∈ chains (hashToBkt (hashv del) tbl.numBuckets) := (hchains.mem hlt).2 ⟨hdel, rfl⟩
  have hin : ∀ p ∈ chains (hashToBkt (hashv del) tbl.numBuckets), p ∈ live :=
    fun p hp => hothers p (hitems p ((hchains.mem hlt).1 hp).1)
  have hlinked := hchains.linked _ hlt
  obtain ⟨xs, ys, hsplit⟩ := List.append_of_mem hmem
  rw [hsplit] at hlinked hin
  obtain ⟨hprev, hnext⟩ := hlinked.neighbours
  apply Runs.access_bind hbuckets
  apply Runs.lift_bind
  intro head _
  apply Runs.access_bind (hothers del (hitems del hdel))
  rw [hprev, hnext]
  apply Runs.accessAt_bind fun p hp => hin p (by simp [List.mem_of_getLast? hp])
  apply Runs.accessAt_bind fun p hp => hin p (by simp [List.mem_of_head? hp])
  exact .pure ⟨rfl, rfl⟩

/-- A search returns one of the elements. -/
theorem hashFind_runs (h : s.Represents items) (hitems : ∀ a ∈ items, a ∈ others)
    (hlive : live = s.tableBlocks t + others) (key : Bytes) :
    Runs live (hashFind s t key) (ChatRooms.hashFind s key)
      fun a b left => a = b ∧ left = live ∧ ∀ p ∈ a, p ∈ items := by
  unfold hashFind ChatRooms.hashFind
  rcases h.empty_or_holds with ⟨hhead, rfl⟩ | ⟨first, tbl, hhead, h⟩
  · rw [hhead]
    exact .pure ⟨rfl, rfl, by simp⟩
  · rw [UtHash.tableBlocks_of_some hhead] at hlive
    obtain ⟨htbl, hbuckets, hothers⟩ := mem_of_cons hlive
    rw [hhead]
    have hlt := h.filled.bkt_lt (hashJen key)
    obtain ⟨-, chains, hchains⟩ := h.filled
    obtain ⟨m, hcell⟩ := hchains.cell _ hlt
    apply Runs.access_bind (hothers first (hitems first (List.mem_of_head? h.head)))
    apply Runs.access_bind htbl
    apply Runs.access_bind hbuckets
    apply Runs.lift_bind
    intro bucket hbucket
    rw [bucketAt_eq_ok hcell] at hbucket
    cases hbucket
    have hchain : ∀ p ∈ chains (hashToBkt (hashJen key) tbl.numBuckets), p ∈ items :=
      fun p hp => ((hchains.mem hlt).1 hp).1
    apply (findInBkt_runs key (hashJen key) (fun p hp => hothers p (hitems p (hchain p hp)))
      (hchains.linked _ hlt).follows _).mono
    rintro a b left ⟨rfl, rfl, hfound⟩
    exact ⟨rfl, rfl, fun p hp => hchain p (hfound p hp)⟩

/-- What an operation leaves: the blocks of the table, and the others. -/
def KeepsTable (others : Multiset A) (a : UtHash A × TableBlocks A) (b : UtHash A) (left : Multiset A) : Prop :=
  a.1 = b ∧ left = a.1.tableBlocks a.2 + others

theorem hashAddToTable_runs (malloc : Allocator A) (heap : Heap) {first add : A} {tbl : UtHashTable A}
    (h : Filled s.chain s.hashv tbl items) (distinct : items.Nodup) (hitems : ∀ a ∈ items, a ∈ others)
    (hnew : add ∉ items) (hadd : add ∈ others) (hlen : items.length + 1 < 2 ^ 32)
    (hlive : live = t.tbl ::ₘ t.buckets ::ₘ others) :
    Runs live (hashAddToTable malloc heap s first add tbl t) (ChatRooms.hashAddToTable heap s first add tbl)
      (KeepsTable others) := by
  have hcounted : Filled s.chain s.hashv { tbl with numItems := u32 (tbl.numItems + 1) } items :=
    h.congr_table rfl rfl rfl
  apply Runs.access_bind (mem_of_cons hlive).1
  apply (hashAddToBkt_runs malloc heap hcounted distinct hitems hnew hadd hlen hlive).bind
  rintro ⟨chain, tbl, t⟩ _ left - ⟨rfl, hleft⟩
  refine .pure ⟨rfl, ?_⟩
  rw [hleft]
  exact (UtHash.tableBlocks_of_some rfl t others).symm

/-- The first element makes a table. -/
theorem hashAdd_runs (malloc : Allocator A) (heap : Heap) (h : s.Represents items) (hitems : ∀ a ∈ items, a ∈ others)
    {add : A} (hnew : add ∉ items) (hadd : add ∈ others) (hlen : items.length + 1 < 2 ^ 32)
    (hlive : live = s.tableBlocks t + others) (key : Bytes) :
    Runs live (hashAdd malloc heap s t key add) (ChatRooms.hashAdd heap s key add) (KeepsTable others) := by
  have haddlive : add ∈ live := by
    rw [hlive]
    exact Multiset.mem_add.2 (.inr hadd)
  apply Runs.access_bind haddlive
  unfold ChatRooms.hashAdd
  dsimp only
  rcases h.empty_or_holds with ⟨hhead, rfl⟩ | ⟨first, tbl, hhead, h⟩
  · rw [hhead]
    rw [UtHash.tableBlocks_of_none hhead, Multiset.zero_add] at hlive
    subst hlive
    rw [hashMakeTable, bind_assoc]
    apply Runs.lift_bind
    intro tbl htbl
    rw [bind_assoc]
    apply Runs.alloc_bind malloc
    intro table
    rw [bind_assoc]
    apply Runs.alloc_bind malloc
    intro buckets
    rw [pure_bind]
    have hfilled := (hashMakeTable_eq_ok htbl s.chain (Function.update s.hashv add (hashJen key))).1
    exact hashAddToTable_runs malloc heap hfilled List.nodup_nil hitems hnew hadd hlen (Multiset.cons_swap _ _ _)
  · rw [hhead]
    rw [UtHash.tableBlocks_of_some hhead] at hlive
    obtain ⟨htbl, -, hothers⟩ := mem_of_cons hlive
    have hhashv : ∀ a ∈ items, Function.update s.hashv add (hashJen key) a = s.hashv a :=
      fun a ha => Function.update_of_ne (ne_of_mem_of_not_mem ha hnew) _ _
    have hfilled : Filled s.chain (Function.update s.hashv add (hashJen key)) { tbl with tail := add } items :=
      (h.filled.congr_hashv hhashv).congr_table rfl rfl rfl
    apply Runs.access_bind (hothers first (hitems first (List.mem_of_head? h.head)))
    apply Runs.access_bind htbl
    apply Runs.access_bind (hothers tbl.tail (hitems tbl.tail (List.mem_of_getLast? h.tail)))
    exact hashAddToTable_runs malloc heap hfilled h.nodup hitems hnew hadd hlen hlive

/-- The last element takes the table with it. -/
theorem hashDelete_runs (h : s.Represents items) (hitems : ∀ a ∈ items, a ∈ others) {del : A} (hdel : del ∈ items)
    (hlive : live = s.tableBlocks t + others) :
    Runs live (hashDelete s t del) (ChatRooms.hashDelete s del)
      fun a b left => a = b ∧ left = a.tableBlocks t + others := by
  unfold hashDelete ChatRooms.hashDelete
  rcases h.empty_or_holds with ⟨hhead, rfl⟩ | ⟨first, tbl, hhead, h⟩
  · cases hdel
  rw [UtHash.tableBlocks_of_some hhead] at hlive
  obtain ⟨htbl, -, hothers⟩ := mem_of_cons hlive
  have hin : ∀ p ∈ items, p ∈ live := fun p hp => hothers p (hitems p hp)
  rw [hhead]
  dsimp only
  apply Runs.access_bind (hin del hdel)
  apply Runs.access_bind (hin first (List.mem_of_head? h.head))
  apply Runs.access_bind htbl
  by_cases hlast : s.app.prev del = none ∧ s.app.next del = none
  · rw [if_pos hlast, if_pos hlast]
    apply Runs.free_bind (hlive.trans (Multiset.cons_swap _ _ _))
    apply Runs.free_last_bind
    exact .pure ⟨rfl, (Multiset.zero_add others).symm⟩
  · rw [if_neg hlast, if_neg hlast]
    obtain ⟨xs, ys, rfl⟩ := List.append_of_mem hdel
    obtain ⟨hprev, hnext⟩ := h.app.neighbours
    have hbefore : ∀ p ∈ s.app.prev del, p ∈ live := by
      rw [hprev]
      exact fun p hp => hin p (List.mem_append_left _ (List.mem_of_getLast? hp))
    have hbehind : ∀ p ∈ s.app.next del, p ∈ live := by
      rw [hnext]
      exact fun p hp => hin p (List.mem_append_right _ (List.mem_cons_of_mem _ (List.mem_of_head? hp)))
    apply Runs.lift_bind
    intro tail _
    apply Runs.accessAt_bind hbefore
    apply Runs.lift_bind
    intro first' hfirst
    apply Runs.accessAt_bind hbehind
    have hfirst' : first' ∈ live := by
      rcases headWithout_eq_ok hfirst with rfl | hbehind'
      · exact hin first' (List.mem_of_head? h.head)
      · exact hbehind first' hbehind'
    apply Runs.access_bind hfirst'
    have hfilled : Filled s.chain s.hashv { tbl with tail } (xs ++ del :: ys) := h.filled.congr_table rfl rfl rfl
    apply (hashDelInBkt_runs hfilled hitems hdel hlive).bind
    rintro ⟨chain, tbl'⟩ _ left - ⟨rfl, hleft⟩
    refine .pure ⟨rfl, ?_⟩
    rw [hleft, hlive]
    exact (UtHash.tableBlocks_of_some rfl t others).symm

end Operations

end Heaped

end ChatRooms
