import Mathlib.Tactic.Ring
import ChatRooms.Lib.Memory

/-!
# Byte order

How a host lays an unsigned integer of `k` bytes out in memory, and the conversions between host
and network byte order.  `ByteOrder.store`/`ByteOrder.load` are the two directions of a memory
access on a host of either byte order; `hton`/`ntoh` are `htonl`, `htons` and their inverses at any
width, defined by what they are for: the stored result is the big-endian representation.
-/

namespace ChatRooms

/-- Whether the least or the most significant byte of an integer comes first. -/
inductive ByteOrder where
  | little
  | big
deriving DecidableEq, Repr

/-- The `k` low bytes of `n`, least significant first. -/
def toLittle : ℕ → ℕ → Bytes
  | 0, _ => []
  | k + 1, n => UInt8.ofNat n :: toLittle k (n / 256)

/-- The integer with the given bytes, least significant first. -/
def ofLittle : Bytes → ℕ
  | [] => 0
  | b :: bs => b.toNat + 256 * ofLittle bs

@[simp] theorem length_toLittle (k n : ℕ) : (toLittle k n).length = k := by
  induction k generalizing n with
  | zero => rfl
  | succ k ih => rw [toLittle, List.length_cons, ih]

theorem ofLittle_toLittle (k n : ℕ) : ofLittle (toLittle k n) = n % 256 ^ k := by
  induction k generalizing n with
  | zero => rw [toLittle, ofLittle, pow_zero, Nat.mod_one]
  | succ k ih =>
    have hb : (UInt8.ofNat n).toNat = n % 256 := UInt8.toNat_ofNat'
    rw [toLittle, ofLittle, ih, hb, pow_succ', Nat.mod_mul]

theorem toLittle_add (j k n : ℕ) : toLittle (j + k) n = toLittle j n ++ toLittle k (n / 256 ^ j) := by
  induction j generalizing n with
  | zero => simp [toLittle]
  | succ j ih =>
    rw [Nat.succ_add, toLittle, toLittle, ih, Nat.div_div_eq_div_mul, ← pow_succ', List.cons_append]

theorem toLittle_zero (k : ℕ) : toLittle k 0 = List.replicate k 0 := by
  induction k with
  | zero => rfl
  | succ k ih =>
    rw [toLittle, Nat.zero_div, ih, List.replicate_succ]
    rfl

theorem ofLittle_lt (b : Bytes) : ofLittle b < 256 ^ b.length := by
  induction b with
  | nil => simp [ofLittle]
  | cons x b ih =>
    have hx := x.toNat_lt
    rw [ofLittle, List.length_cons, pow_succ]
    omega

theorem toLittle_ofLittle (b : Bytes) : toLittle b.length (ofLittle b) = b := by
  induction b with
  | nil => rfl
  | cons x b ih =>
    have hx := x.toNat_lt
    have hq : (x.toNat + 256 * ofLittle b) / 256 = ofLittle b := by omega
    rw [List.length_cons, ofLittle, toLittle, hq, ih]
    congr 1
    apply UInt8.toNat_inj.1
    rw [UInt8.toNat_ofNat']
    omega

namespace ByteOrder

/-- The memory representation of an unsigned integer of `k` bytes. -/
def store (o : ByteOrder) (k n : ℕ) : Bytes :=
  match o with
  | .little => toLittle k n
  | .big => (toLittle k n).reverse

/-- The unsigned integer with the given memory representation. -/
def load (o : ByteOrder) (b : Bytes) : ℕ :=
  match o with
  | .little => ofLittle b
  | .big => ofLittle b.reverse

@[simp] theorem length_store (o : ByteOrder) (k n : ℕ) : (o.store k n).length = k := by
  cases o <;> simp [store]

theorem load_store (o : ByteOrder) (k n : ℕ) : o.load (o.store k n) = n % 256 ^ k := by
  cases o <;> simp [load, store, ofLittle_toLittle]

theorem load_store_of_lt (o : ByteOrder) {k n : ℕ} (h : n < 256 ^ k) : o.load (o.store k n) = n := by
  rw [load_store, Nat.mod_eq_of_lt h]

theorem load_lt (o : ByteOrder) (b : Bytes) : o.load b < 256 ^ b.length := by
  cases o with
  | little => exact ofLittle_lt b
  | big => simpa [load] using ofLittle_lt b.reverse

theorem store_load (o : ByteOrder) (b : Bytes) : o.store b.length (o.load b) = b := by
  cases o with
  | little => exact toLittle_ofLittle b
  | big =>
    have := toLittle_ofLittle b.reverse
    rw [List.length_reverse] at this
    rw [store, load, this, List.reverse_reverse]

end ByteOrder

/-- Host to network byte order at a width of `k` bytes. -/
def hton (host : ByteOrder) (k n : ℕ) : ℕ := host.load (ByteOrder.big.store k n)

/-- Network to host byte order at a width of `k` bytes. -/
def ntoh (host : ByteOrder) (k n : ℕ) : ℕ := ByteOrder.big.load (host.store k n)

theorem hton_lt (host : ByteOrder) (k n : ℕ) : hton host k n < 256 ^ k := by
  simpa [hton] using host.load_lt (ByteOrder.big.store k n)

/-- A converted integer is big-endian in memory. -/
theorem store_hton (host : ByteOrder) (k n : ℕ) :
    host.store k (hton host k n) = ByteOrder.big.store k n := by
  have := host.store_load (ByteOrder.big.store k n)
  rwa [ByteOrder.length_store] at this

/-- Loading and converting reads a big-endian integer. -/
theorem ntoh_load (host : ByteOrder) {k : ℕ} {b : Bytes} (h : b.length = k) :
    ntoh host k (host.load b) = ByteOrder.big.load b := by
  rw [ntoh, ← h, host.store_load]

/-- A little-endian host stores a converted integer in a wider field behind its big-endian bytes, with
zeros above it. -/
theorem store_hton_wide (j k n : ℕ) :
    ByteOrder.little.store (j + k) (hton .little j n) =
      ByteOrder.big.store j n ++ List.replicate k 0 := by
  have hlow : toLittle j (hton .little j n) = ByteOrder.big.store j n := store_hton .little j n
  have hhigh : hton .little j n / 256 ^ j = 0 := Nat.div_eq_of_lt (hton_lt .little j n)
  show toLittle (j + k) (hton .little j n) = _
  rw [toLittle_add, hlow, hhigh, toLittle_zero]

/-- A big-endian host stores it with the zeros in front. -/
theorem store_wide_big {j n : ℕ} (k : ℕ) (h : n < 256 ^ j) :
    ByteOrder.big.store (j + k) (hton .big j n) = List.replicate k 0 ++ ByteOrder.big.store j n := by
  have hsame : hton .big j n = n := ByteOrder.big.load_store_of_lt h
  have hhigh : n / 256 ^ j = 0 := Nat.div_eq_of_lt h
  show (toLittle (j + k) (hton .big j n)).reverse = _
  rw [hsame, toLittle_add, hhigh, toLittle_zero, List.reverse_append, List.reverse_replicate]
  rfl

theorem ntoh_hton (host : ByteOrder) {k n : ℕ} (h : n < 256 ^ k) : ntoh host k (hton host k n) = n := by
  rw [ntoh, store_hton, ByteOrder.load_store_of_lt _ h]

end ChatRooms
