import ChatRooms.Lib.Links
import ChatRooms.PollfdArray

/-!
# The hash table

The macros of `lib/uthash.h` behind `HASH_FIND_INT`, `HASH_ADD_INT` and `HASH_DEL`, in the configuration
of the repository: the hash function is `HASH_JEN`, there is no Bloom filter, and a failed allocation ends
the process.  Elements are known by their addresses, and an element and its handle by the same one.  Each
handle sits in two doubly linked lists: `app` of all elements in the order of their addition, and `chain`
of those in one bucket.  All handles point to one table, which is kept beside the head.

An operation that does not return a result ends in a `HashStop`; the fuel of a walk along a bucket is the
number of elements the bucket counts.
-/

namespace ChatRooms

/-- How an operation ends without a result: by a memory fault, in a walk longer than the bucket's count, or
by `uthash_fatal`. -/
inductive HashStop where
  | fault (f : Fault)
  | endless
  | outOfMemory
deriving DecidableEq, Repr

/-! ## `HASH_JEN` -/

/-- Byte `n` of the key; a byte behind its end adds nothing. -/
def keyByte (key : Bytes) (n : ℕ) : UInt32 := (key.getD n 0).toUInt32

/-- The four bytes from `n` on, least significant first. -/
def keyWord (key : Bytes) (n : ℕ) : UInt32 :=
  keyByte key n + (keyByte key (n + 1) <<< 8) + (keyByte key (n + 2) <<< 16) + (keyByte key (n + 3) <<< 24)

/-- `HASH_JEN_MIX` -/
def hashJenMix (a b c : UInt32) : UInt32 × UInt32 × UInt32 :=
  let a := (a - b - c) ^^^ (c >>> 13)
  let b := (b - c - a) ^^^ (a <<< 8)
  let c := (c - a - b) ^^^ (b >>> 13)
  let a := (a - b - c) ^^^ (c >>> 12)
  let b := (b - c - a) ^^^ (a <<< 16)
  let c := (c - a - b) ^^^ (b >>> 5)
  let a := (a - b - c) ^^^ (c >>> 3)
  let b := (b - c - a) ^^^ (a <<< 10)
  let c := (c - a - b) ^^^ (b >>> 15)
  (a, b, c)

/-- The loop over the blocks of twelve bytes, `blocks` of them; it leaves the rest of the key. -/
def hashJenBlocks : ℕ → Bytes → UInt32 × UInt32 × UInt32 → Bytes × UInt32 × UInt32 × UInt32
  | 0, key, state => (key, state)
  | blocks + 1, key, (i, j, hashv) =>
    hashJenBlocks blocks (key.drop 12)
      (hashJenMix (i + keyWord key 0) (j + keyWord key 4) (hashv + keyWord key 8))

/-- `HASH_JEN`; the cases of its `switch` fall through. -/
def hashJen (key : Bytes) : UInt32 :=
  let (rest, i, j, hashv) :=
    hashJenBlocks (key.length / 12) key (0x9e3779b9, 0x9e3779b9, 0xfeedbeef)
  let hashv := hashv + UInt32.ofNat key.length + (keyByte rest 8 <<< 8) + (keyByte rest 9 <<< 16) +
    (keyByte rest 10 <<< 24)
  (hashJenMix (i + keyWord rest 0) (j + keyWord rest 4) hashv).2.2

/-! ## Tables -/

/-- `UT_hash_bucket` -/
structure UtHashBucket (α : Type) where
  hhHead : Option α
  count : ℕ
  expandMult : ℕ

/-- `UT_hash_table` -/
structure UtHashTable (α : Type) where
  buckets : List (UtHashBucket α)
  numBuckets : ℕ
  log2NumBuckets : ℕ
  numItems : ℕ
  tail : α
  idealChainMaxlen : ℕ
  nonidealItems : ℕ
  ineffExpands : ℕ
  noexpand : Bool

/-- The head of the hash with the table behind it, and the handles of all elements: `key` is what the
`key` pointer of a handle points to. -/
structure UtHash (α : Type) where
  app : Links α
  chain : Links α
  hashv : α → UInt32
  key : α → Bytes
  head : Option (α × UtHashTable α)

/-- `HASH_INITIAL_NUM_BUCKETS` -/
def hashInitialNumBuckets : ℕ := 32

/-- `HASH_INITIAL_NUM_BUCKETS_LOG2` -/
def hashInitialNumBucketsLog2 : ℕ := 5

/-- `HASH_BKT_CAPACITY_THRESH` -/
def hashBktCapacityThresh : ℕ := 10

/-- `sizeof(UT_hash_table)` -/
def sizeofUtHashTable : ℕ := 64

/-- `sizeof(struct UT_hash_bucket)` -/
def sizeofUtHashBucket : ℕ := 16

/-- `HASH_TO_BKT` -/
def hashToBkt (hashv : UInt32) (numBkts : ℕ) : ℕ := hashv.toNat &&& u32 (numBkts + 2 ^ 32 - 1)

/-- The bucket at an index. -/
def bucketAt {α : Type} (buckets : List (UtHashBucket α)) (bkt : ℕ) : Except HashStop (UtHashBucket α) :=
  match buckets[bkt]? with
  | some b => .ok b
  | none => .error (.fault (.read bkt buckets.length))

section Macros

variable {α : Type} [DecidableEq α]

/-- `HASH_MAKE_TABLE` for the first element `a`. -/
def hashMakeTable (heap : Heap) (a : α) : Except HashStop (UtHashTable α) :=
  if !heap.serves sizeofUtHashTable then .error .outOfMemory
  else if !heap.serves (hashInitialNumBuckets * sizeofUtHashBucket) then .error .outOfMemory
  else .ok {
    buckets := List.replicate hashInitialNumBuckets ⟨none, 0, 0⟩
    numBuckets := hashInitialNumBuckets
    log2NumBuckets := hashInitialNumBucketsLog2
    numItems := 0
    tail := a
    idealChainMaxlen := 0
    nonidealItems := 0
    ineffExpands := 0
    noexpand := false }

/-! ## `HASH_EXPAND_BUCKETS` -/

/-- What the loops of `HASH_EXPAND_BUCKETS` work on. -/
structure Expansion (α : Type) where
  chain : Links α
  newBuckets : List (UtHashBucket α)
  nonidealItems : ℕ

/-- The body of the inner loop: one element goes to the front of its new bucket. -/
def moveElement (hashv : α → UInt32) (numBuckets ideal : ℕ) (thh : α) (e : Expansion α) :
    Except HashStop (Expansion α) := do
  let bkt := hashToBkt (hashv thh) (u32 (numBuckets * 2))
  let newbkt ← bucketAt e.newBuckets bkt
  let count := u32 (newbkt.count + 1)
  let expandMult :=
    if count > ideal ∧ count > u32 (newbkt.expandMult * ideal) then u32 (newbkt.expandMult + 1)
    else newbkt.expandMult
  return {
    chain := e.chain.pushFront newbkt.hhHead thh
    newBuckets := e.newBuckets.set bkt ⟨some thh, count, expandMult⟩
    nonidealItems := if count > ideal then u32 (e.nonidealItems + 1) else e.nonidealItems }

/-- The inner loop from the handle `thh` on. -/
def moveChain (hashv : α → UInt32) (numBuckets ideal : ℕ) :
    ℕ → Option α → Expansion α → Except HashStop (Expansion α)
  | _, none, e => return e
  | 0, some _, _ => throw .endless
  | fuel + 1, some thh, e => do
    let next := e.chain.next thh
    let e ← moveElement hashv numBuckets ideal thh e
    moveChain hashv numBuckets ideal fuel next e

/-- The outer loop from bucket `i` on, with `todo` buckets to go. -/
def moveBuckets (hashv : α → UInt32) (numBuckets ideal : ℕ) (buckets : List (UtHashBucket α)) :
    ℕ → ℕ → Expansion α → Except HashStop (Expansion α)
  | 0, _, e => return e
  | todo + 1, i, e => do
    let bucket ← bucketAt buckets i
    let e ← moveChain hashv numBuckets ideal bucket.count bucket.hhHead e
    moveBuckets hashv numBuckets ideal buckets todo (i + 1) e

def hashExpandBuckets (heap : Heap) (hashv : α → UInt32) (chain : Links α) (tbl : UtHashTable α) :
    Except HashStop (Links α × UtHashTable α) :=
  if !heap.serves (sizeofUtHashBucket * tbl.numBuckets * 2) then .error .outOfMemory
  else do
    let ideal := u32 ((tbl.numItems >>> (tbl.log2NumBuckets + 1)) +
      if tbl.numItems &&& u32 (u32 (tbl.numBuckets * 2) + 2 ^ 32 - 1) ≠ 0 then 1 else 0)
    let e ← moveBuckets hashv tbl.numBuckets ideal tbl.buckets tbl.numBuckets 0
      ⟨chain, List.replicate (tbl.numBuckets * 2) ⟨none, 0, 0⟩, 0⟩
    let ineffExpands := if e.nonidealItems > tbl.numItems >>> 1 then u32 (tbl.ineffExpands + 1) else 0
    return (e.chain, { tbl with
      buckets := e.newBuckets
      numBuckets := u32 (tbl.numBuckets * 2)
      log2NumBuckets := u32 (tbl.log2NumBuckets + 1)
      idealChainMaxlen := ideal
      nonidealItems := e.nonidealItems
      ineffExpands := ineffExpands
      noexpand := tbl.noexpand || decide (ineffExpands > 1) })

/-! ## Buckets -/

/-- `HASH_ADD_TO_BKT` -/
def hashAddToBkt (heap : Heap) (hashv : α → UInt32) (bkt : ℕ) (add : α) (chain : Links α)
    (tbl : UtHashTable α) : Except HashStop (Links α × UtHashTable α) := do
  let head ← bucketAt tbl.buckets bkt
  let count := u32 (head.count + 1)
  let chain := chain.pushFront head.hhHead add
  let tbl := { tbl with buckets := tbl.buckets.set bkt { head with hhHead := some add, count } }
  if count ≥ u32 (u32 (head.expandMult + 1) * hashBktCapacityThresh) ∧ ¬ tbl.noexpand then
    hashExpandBuckets heap hashv chain tbl
  else return (chain, tbl)

/-- `HASH_DEL_IN_BKT` -/
def hashDelInBkt (bkt : ℕ) (del : α) (chain : Links α) (tbl : UtHashTable α) :
    Except HashStop (Links α × UtHashTable α) := do
  let head ← bucketAt tbl.buckets bkt
  let hhHead := if head.hhHead = some del then chain.next del else head.hhHead
  let count := u32 (head.count + 2 ^ 32 - 1)
  return (chain.unlink del, { tbl with buckets := tbl.buckets.set bkt { head with hhHead, count } })

namespace UtHash

/-- `HASH_FIND_IN_BKT` from the element `out` on. -/
def findInBkt (s : UtHash α) (key : Bytes) (hashval : UInt32) : ℕ → Option α → Except HashStop (Option α)
  | _, none => return none
  | 0, some _ => throw .endless
  | fuel + 1, some out =>
    if s.hashv out = hashval ∧ (s.key out).length = key.length ∧ s.key out = key then return some out
    else s.findInBkt key hashval fuel (s.chain.next out)

end UtHash

/-! ## The table's operations -/

/-- `HASH_FIND` -/
def hashFind (s : UtHash α) (key : Bytes) : Except HashStop (Option α) :=
  match s.head with
  | none => return none
  | some (_, tbl) => do
    let hashv := hashJen key
    let bucket ← bucketAt tbl.buckets (hashToBkt hashv tbl.numBuckets)
    s.findInBkt key hashv bucket.count bucket.hhHead

/-- `HASH_ADD_TO_TABLE` -/
def hashAddToTable (heap : Heap) (s : UtHash α) (first add : α) (tbl : UtHashTable α) :
    Except HashStop (UtHash α) := do
  let bkt := hashToBkt (s.hashv add) tbl.numBuckets
  let tbl := { tbl with numItems := u32 (tbl.numItems + 1) }
  let (chain, tbl) ← hashAddToBkt heap s.hashv bkt add s.chain tbl
  return { s with chain, head := some (first, tbl) }

/-- `HASH_ADD` of the element at `add`, whose key field holds `key`. -/
def hashAdd (heap : Heap) (s : UtHash α) (key : Bytes) (add : α) : Except HashStop (UtHash α) :=
  let s := { s with hashv := Function.update s.hashv add (hashJen key), key := Function.update s.key add key }
  match s.head with
  | none => do
    let tbl ← hashMakeTable heap add
    hashAddToTable heap { s with app := (s.app.setNext add none).setPrev add none } add add tbl
  | some (first, tbl) =>
    -- `HASH_APPEND_LIST`
    hashAddToTable heap { s with app := s.app.pushBack tbl.tail add } first add { tbl with tail := add }

/-- The last element once `del` is gone, read from the `prev` field of `del` where it was the last. -/
def tailWithout (app : Links α) (del tail : α) : Except HashStop α :=
  if del = tail then
    match app.prev del with
    | some p => .ok p
    | none => .error (.fault .null)
  else .ok tail

/-- The first element once `del` is gone. -/
def headWithout (app : Links α) (del first : α) : Except HashStop α :=
  match app.prev del, app.next del with
  | some _, _ => .ok first
  | none, some n => .ok n
  | none, none => .error (.fault .null)

/-- `HASH_DELETE` -/
def hashDelete (s : UtHash α) (del : α) : Except HashStop (UtHash α) :=
  match s.head with
  | none => .error (.fault .null)
  | some (first, tbl) =>
    if s.app.prev del = none ∧ s.app.next del = none then return { s with head := none }
    else do
      let tail ← tailWithout s.app del tbl.tail
      let first ← headWithout s.app del first
      let (chain, tbl) ← hashDelInBkt (hashToBkt (s.hashv del) tbl.numBuckets) del s.chain { tbl with tail }
      return { s with
        app := s.app.unlink del
        chain
        head := some (first, { tbl with numItems := u32 (tbl.numItems + 2 ^ 32 - 1) }) }

/-! ## `HASH_FSCK` -/

/-- A walk that compares every back pointer and counts, from the cell `x` on; `none` is `HASH_OOPS`, or a
walk that is longer than its fuel. -/
def fsckWalk (l : Links α) : ℕ → Option α → Option α → Option ℕ
  | _, _, none => some 0
  | 0, _, some _ => none
  | fuel + 1, before, some x =>
    if before ≠ l.prev x then none
    else (fsckWalk l fuel (some x) (l.next x)).map (· + 1)

/-- The loop over the buckets: the number of elements in all of them. -/
def fsckBuckets (chain : Links α) : List (UtHashBucket α) → Option ℕ
  | [] => some 0
  | b :: bs => do
    let count ← fsckWalk chain b.count none b.hhHead
    if b.count ≠ count then none
    else (fsckBuckets chain bs).map (count + ·)

/-- `HASH_FSCK`, the integrity check of the library for its developers: `true` when it finds nothing. -/
def hashFsck (s : UtHash α) : Bool :=
  match s.head with
  | none => true
  | some (first, tbl) =>
    decide (fsckBuckets s.chain (tbl.buckets.take tbl.numBuckets) = some tbl.numItems) &&
      decide (fsckWalk s.app tbl.numItems none (some first) = some tbl.numItems)

end Macros

end ChatRooms
