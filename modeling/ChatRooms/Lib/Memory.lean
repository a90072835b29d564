import Mathlib.Data.Vector.Basic
import Mathlib.Data.List.TakeWhile

/-!
# Checked memory

C programs read and write blocks of bytes and arrays of a fixed size, and the language says nothing
about an access outside them.  Here every access is checked: it either succeeds or ends the
computation with the `Fault` it committed, so "no access leaves its object" is "no fault".

* `readByte`, `readBytes`, `writeBytes` on blocks whose size is only known at run time;
* `CArray α n`, an array of exactly `n` elements, with `CArray.get?`-style checked reads and writes;
* C strings held in a `CArray UInt8 n`: `strlen`, `strcpy`, `copyInto` (a `memcpy` to the front of
  the array) and `cstr`, the characters before the first NUL.
-/

namespace ChatRooms

/-- An access outside the object it is made to, with the index and the object's size, or an access
through a null pointer. -/
inductive Fault where
  | read (index size : ℕ)
  | write (index size : ℕ)
  | null
deriving DecidableEq, Repr

/-- A computation that may commit a memory fault. -/
abbrev Checked := Except Fault

namespace Checked

variable {α β : Type}

@[simp] theorem ok_bind (a : α) (f : α → Checked β) : (Except.ok a >>= f : Checked β) = f a := rfl

@[simp] theorem error_bind (e : Fault) (f : α → Checked β) :
    (Except.error e >>= f : Checked β) = .error e := rfl

@[simp] theorem pure_eq_ok (a : α) : (pure a : Checked α) = .ok a := rfl

/-- A sequence succeeds exactly when both of its parts do. -/
theorem bind_eq_ok {x : Checked α} {f : α → Checked β} {b : β} :
    x >>= f = .ok b ↔ ∃ a, x = .ok a ∧ f a = .ok b := by
  cases x with
  | error e => simp
  | ok a => simp

/-- The computation commits no fault. -/
def Safe (x : Checked α) : Prop := ∃ a, x = .ok a

@[simp] theorem safe_ok (a : α) : Safe (.ok a : Checked α) := ⟨a, rfl⟩

@[simp] theorem not_safe_error (e : Fault) : ¬ Safe (.error e : Checked α) := by
  rintro ⟨a, ha⟩
  cases ha

theorem safe_bind {x : Checked α} {f : α → Checked β} :
    Safe (x >>= f) ↔ ∃ a, x = .ok a ∧ Safe (f a) := by
  cases x with
  | error e => simp
  | ok a => simp

theorem safe_bind_ok {x : Checked α} {g : α → β} : Safe (x >>= fun a => .ok (g a)) ↔ Safe x := by
  cases x with
  | error e => simp
  | ok a => simp

instance (x : Checked α) : Decidable x.Safe :=
  match x with
  | .ok a => .isTrue ⟨a, rfl⟩
  | .error e => .isFalse (not_safe_error e)

end Checked

/-! ## Blocks -/

/-- The contents of a block of memory. -/
abbrev Bytes := List UInt8

/-- Reads the byte at index `off`. -/
def readByte (b : Bytes) (off : ℕ) : Checked UInt8 :=
  if h : off < b.length then .ok b[off] else .error (.read off b.length)

/-- Reads the `n` bytes from index `off` on. -/
def readBytes (b : Bytes) (off n : ℕ) : Checked Bytes :=
  if off + n ≤ b.length then .ok ((b.drop off).take n) else .error (.read (off + n) b.length)

/-- Overwrites the block with `src` from index `off` on. -/
def writeBytes (b : Bytes) (off : ℕ) (src : Bytes) : Checked Bytes :=
  if off + src.length ≤ b.length then .ok (b.take off ++ src ++ b.drop (off + src.length))
  else .error (.write (off + src.length) b.length)

theorem readByte_eq_ok {b : Bytes} {off : ℕ} {x : UInt8} :
    readByte b off = .ok x ↔ b[off]? = some x := by
  unfold readByte
  split
  · rename_i h
    rw [List.getElem?_eq_getElem h, Except.ok.injEq, Option.some.injEq]
  · rename_i h
    simp [h]

theorem readByte_safe_iff {b : Bytes} {off : ℕ} : (readByte b off).Safe ↔ off < b.length := by
  unfold readByte
  split <;> simp [*]

theorem readByte_of_lt {b : Bytes} {off : ℕ} (h : off < b.length) :
    readByte b off = .ok (b.getD off 0) := by
  rw [readByte_eq_ok, List.getD_eq_getElem?_getD, List.getElem?_eq_getElem h]
  rfl

theorem readByte_append_right {a b : Bytes} {off : ℕ} (h : off = a.length) (x : UInt8) :
    readByte (a ++ x :: b) off = .ok x := by
  rw [readByte_eq_ok, h, List.getElem?_append_right le_rfl]
  simp

theorem readBytes_eq_ok {b : Bytes} {off n : ℕ} {x : Bytes} :
    readBytes b off n = .ok x ↔ off + n ≤ b.length ∧ x = (b.drop off).take n := by
  unfold readBytes
  split
  · rename_i h
    rw [Except.ok.injEq]
    exact ⟨fun e => ⟨h, e.symm⟩, fun e => e.2.symm⟩
  · rename_i h
    simp [h]

/-- Reading back the middle part of a concatenation. -/
theorem readBytes_append {a x b : Bytes} {off n : ℕ} (ha : off = a.length) (hx : n = x.length) :
    readBytes (a ++ (x ++ b)) off n = .ok x := by
  subst ha hx
  rw [readBytes_eq_ok]
  constructor
  · simp only [List.length_append]
    omega
  · rw [List.drop_left, List.take_left]

theorem writeBytes_eq_ok {b src x : Bytes} {off : ℕ} :
    writeBytes b off src = .ok x ↔
      off + src.length ≤ b.length ∧ x = b.take off ++ src ++ b.drop (off + src.length) := by
  unfold writeBytes
  split
  · rename_i h
    rw [Except.ok.injEq]
    exact ⟨fun e => ⟨h, e.symm⟩, fun e => e.2.symm⟩
  · rename_i h
    simp [h]

/-! ## Allocation -/

/-- What the allocator answers: whether it serves a request of a given size, and what the memory it
hands out holds before it is written. -/
structure Heap where
  serves : ℕ → Bool
  fresh : ℕ → UInt8

/-- A new block of `n` bytes, or `none` for `NULL`. -/
def Heap.malloc (h : Heap) (n : ℕ) : Option Bytes :=
  if h.serves n then some ((List.range n).map h.fresh) else none

/-- The block resized to `n` bytes: what fits is kept, an added part is unwritten memory. -/
def Heap.realloc (h : Heap) (b : Bytes) (n : ℕ) : Option Bytes :=
  if h.serves n then some (b.take n ++ (List.range (n - b.length)).map h.fresh) else none

/-- An allocator that serves every request for some bytes with zeroed memory. -/
def Heap.steady : Heap := ⟨fun n => decide (0 < n), fun _ => 0⟩

theorem Heap.malloc_of_serves {h : Heap} {n : ℕ} (hs : h.serves n = true) :
    h.malloc n = some ((List.range n).map h.fresh) := if_pos hs

theorem Heap.malloc_of_not_serves {h : Heap} {n : ℕ} (hs : h.serves n = false) :
    h.malloc n = none := if_neg (by simp [hs])

/-! ## A cursor that fills a block -/

/-- A block being filled from the front: `b` in the source, together with the block it points
into. -/
structure Cursor where
  block : Bytes
  pos : ℕ

/-- Writes `src` at the cursor and moves past it. -/
def Cursor.put (c : Cursor) (src : Bytes) : Checked Cursor := do
  let block ← writeBytes c.block c.pos src
  return { block, pos := c.pos + src.length }

/-- The cursor has written exactly `done`, and `left` bytes of the block remain. -/
def Cursor.At (c : Cursor) (done : Bytes) (left : ℕ) : Prop :=
  ∃ rest, c.block = done ++ rest ∧ rest.length = left ∧ c.pos = done.length

theorem Cursor.at_start (b : Bytes) : Cursor.At ⟨b, 0⟩ [] b.length :=
  ⟨b, rfl, rfl, rfl⟩

/-- Writing at the cursor appends to what has been written, as long as the block has room. -/
theorem Cursor.At.put {c : Cursor} {done : Bytes} {left : ℕ} (h : c.At done left) (src : Bytes)
    (room : src.length ≤ left) :
    ∃ c', c.put src = .ok c' ∧ c'.At (done ++ src) (left - src.length) := by
  obtain ⟨rest, hb, hl, hp⟩ := h
  refine ⟨⟨done ++ src ++ rest.drop src.length, c.pos + src.length⟩, ?_, rest.drop src.length, rfl,
    ?_, ?_⟩
  · have hw : writeBytes c.block c.pos src = .ok (done ++ src ++ rest.drop src.length) := by
      rw [writeBytes_eq_ok, hb, hp]
      constructor
      · simp only [List.length_append]
        omega
      · rw [List.take_left, List.drop_append, Nat.add_sub_cancel_left,
          List.drop_eq_nil_of_le (Nat.le_add_right _ _), List.nil_append]
    rw [Cursor.put, hw]
    rfl
  · rw [List.length_drop, hl]
  · rw [hp, List.length_append]

/-- A block filled to its end holds exactly what was written. -/
theorem Cursor.At.block_eq {c : Cursor} {done : Bytes} (h : c.At done 0) : c.block = done := by
  obtain ⟨rest, hb, hl, -⟩ := h
  rw [hb, List.length_eq_zero_iff.1 hl, List.append_nil]

/-! ## Arrays of a fixed size -/

/-- An array of exactly `n` elements. -/
abbrev CArray (α : Type) (n : ℕ) := List.Vector α n

namespace CArray

variable {α : Type} {n : ℕ}

/-- The array with the given elements. -/
def ofList (l : List α) (h : l.length = n) : CArray α n := ⟨l, h⟩

@[simp] theorem toList_ofList (l : List α) (h : l.length = n) : (ofList l h).toList = l := rfl

theorem toList_inj {v w : CArray α n} : v.toList = w.toList ↔ v = w :=
  List.Vector.toList_injective.eq_iff

/-- Reads the element at index `i`. -/
def read (v : CArray α n) (i : ℕ) : Checked α :=
  if h : i < n then .ok (v.get ⟨i, h⟩) else .error (.read i n)

/-- Overwrites the element at index `i`. -/
def write (v : CArray α n) (i : ℕ) (x : α) : Checked (CArray α n) :=
  if h : i < n then .ok (v.set ⟨i, h⟩ x) else .error (.write i n)

theorem read_of_lt (v : CArray α n) {i : ℕ} (h : i < v.toList.length) :
    v.read i = .ok v.toList[i] := by
  rw [read, dif_pos (v.toList_length ▸ h)]
  rfl

theorem write_of_lt (v : CArray α n) {i : ℕ} (h : i < n) (x : α) :
    v.write i x = .ok (v.set ⟨i, h⟩ x) := dif_pos h

/-- An array whose elements are given by index. -/
def fill (f : ℕ → α) : CArray α n := ofList ((List.range n).map f) (by simp)

end CArray

/-! ## C strings -/

/-- The characters of a block before its first NUL. -/
def cstr (b : Bytes) : Bytes := b.takeWhile (· ≠ 0)

/-- The number of characters before the first NUL of an array; without a NUL the search leaves the
array. -/
def strlen {n : ℕ} (s : CArray UInt8 n) : Checked ℕ :=
  if 0 ∈ s.toList then .ok (cstr s.toList).length else .error (.read n n)

/-- `memcpy` of `src` to the front of an array. -/
def copyInto {n : ℕ} (dst : CArray UInt8 n) (src : Bytes) : Checked (CArray UInt8 n) :=
  if h : src.length ≤ n then
    .ok (.ofList (src ++ dst.toList.drop src.length) (by simp [h]))
  else .error (.write n n)

/-- `memcpy` of `len` bytes of a block, from index `off` on, to the front of an array. -/
def memcpyInto {n : ℕ} (dst : CArray UInt8 n) (b : Bytes) (off len : ℕ) :
    Checked (CArray UInt8 n) := do
  copyInto dst (← readBytes b off len)

/-- Copies a string and its NUL to the front of an array. -/
def strcpy {n m : ℕ} (dst : CArray UInt8 n) (src : CArray UInt8 m) : Checked (CArray UInt8 n) := do
  let len ← strlen src
  copyInto dst (src.toList.take (len + 1))

/-- An array that holds a NUL, and so a C string. -/
def Terminated {n : ℕ} (s : CArray UInt8 n) : Prop := 0 ∈ s.toList

instance {n : ℕ} (s : CArray UInt8 n) : Decidable (Terminated s) :=
  inferInstanceAs (Decidable (0 ∈ s.toList))

theorem nul_notMem_cstr (b : Bytes) : 0 ∉ cstr b := by
  intro h
  have := List.mem_takeWhile_imp h
  simp at this

theorem cstr_append_nul {s : Bytes} (h : 0 ∉ s) (rest : Bytes) : cstr (s ++ 0 :: rest) = s := by
  have hs : ∀ a ∈ s, decide (a ≠ 0) = true := fun a ha =>
    decide_eq_true fun e => h (e ▸ ha)
  rw [cstr, List.takeWhile_append_of_pos hs]
  simp

/-- A block that holds a NUL is its string, the NUL, and what follows. -/
theorem eq_cstr_append {b : Bytes} (h : 0 ∈ b) :
    b = cstr b ++ 0 :: b.drop ((cstr b).length + 1) := by
  induction b with
  | nil => simp at h
  | cons a b ih =>
    by_cases ha : a = 0
    · subst ha
      simp [cstr]
    · have hc : cstr (a :: b) = a :: cstr b := by simp [cstr, ha]
      have hb : 0 ∈ b := (List.mem_cons.1 h).resolve_left (Ne.symm ha)
      rw [hc, List.length_cons, List.drop_succ_cons, List.cons_append, ← ih hb]

/-- What follows a NUL does not belong to the string. -/
theorem cstr_append_of_mem {b : Bytes} (h : 0 ∈ b) (rest : Bytes) : cstr (b ++ rest) = cstr b := by
  conv_lhs =>
    rw [eq_cstr_append h, List.append_assoc, List.cons_append, cstr_append_nul (nul_notMem_cstr b)]

theorem take_cstr_succ {b : Bytes} (h : 0 ∈ b) : b.take ((cstr b).length + 1) = cstr b ++ [0] := by
  have := congrArg (List.take ((cstr b).length + 1)) (eq_cstr_append h)
  rw [this, List.take_length_add_append]
  rfl

section CStrings

variable {n m : ℕ} {s : CArray UInt8 n}

theorem length_cstr_lt (h : Terminated s) : (cstr s.toList).length < n := by
  have := congrArg List.length (eq_cstr_append h)
  rw [List.Vector.toList_length, List.length_append, List.length_cons] at this
  omega

theorem strlen_eq (h : Terminated s) : strlen s = .ok (cstr s.toList).length := if_pos h

theorem strlen_eq_ok {k : ℕ} : strlen s = .ok k ↔ Terminated s ∧ k = (cstr s.toList).length := by
  unfold strlen
  split
  · rename_i h
    rw [Except.ok.injEq]
    exact ⟨fun e => ⟨h, e.symm⟩, fun e => e.2.symm⟩
  · rename_i h
    simp [Terminated, h]

theorem copyInto_eq_ok {dst v : CArray UInt8 n} {src : Bytes} :
    copyInto dst src = .ok v ↔ src.length ≤ n ∧ v.toList = src ++ dst.toList.drop src.length := by
  unfold copyInto
  split
  · rename_i h
    rw [Except.ok.injEq]
    constructor
    · rintro rfl
      exact ⟨h, rfl⟩
    · rintro ⟨-, e⟩
      exact (CArray.toList_inj.1 e).symm
  · rename_i h
    simp [h]

theorem copyInto_of_le (dst : CArray UInt8 n) (src : Bytes) (h : src.length ≤ n) :
    ∃ v, copyInto dst src = .ok v ∧ v.toList = src ++ dst.toList.drop src.length :=
  ⟨.ofList _ (by simp [h]), dif_pos h, rfl⟩

theorem memcpyInto_eq_ok {dst v : CArray UInt8 n} {b : Bytes} {off len : ℕ} :
    memcpyInto dst b off len = .ok v ↔ off + len ≤ b.length ∧ len ≤ n ∧
      v.toList = (b.drop off).take len ++ dst.toList.drop len := by
  rw [memcpyInto, Checked.bind_eq_ok]
  constructor
  · rintro ⟨x, hx, hv⟩
    obtain ⟨hl, rfl⟩ := readBytes_eq_ok.1 hx
    obtain ⟨hn, hv⟩ := copyInto_eq_ok.1 hv
    have hlen : ((b.drop off).take len).length = len := by
      rw [List.length_take, List.length_drop]
      omega
    rw [hlen] at hn hv
    exact ⟨hl, hn, hv⟩
  · rintro ⟨hl, hn, hv⟩
    have hlen : ((b.drop off).take len).length = len := by
      rw [List.length_take, List.length_drop]
      omega
    exact ⟨_, readBytes_eq_ok.2 ⟨hl, rfl⟩, copyInto_eq_ok.2 (by rw [hlen]; exact ⟨hn, hv⟩)⟩

/-- Copying a field that lies in the middle of the block. -/
theorem memcpyInto_append (dst : CArray UInt8 n) (off len : ℕ) {a x b : Bytes} (ha : off = a.length)
    (hx : len = x.length) (hl : len ≤ n) :
    ∃ v, memcpyInto dst (a ++ (x ++ b)) off len = .ok v ∧ v.toList = x ++ dst.toList.drop len := by
  obtain ⟨v, hv, ht⟩ := copyInto_of_le dst x (hx ▸ hl)
  refine ⟨v, ?_, by rw [ht, hx]⟩
  rw [memcpyInto, readBytes_append ha hx, Checked.ok_bind, hv]

/-- Copying a field is safe when the block and the array both have room for its length. -/
theorem memcpyInto_safe_iff {dst : CArray UInt8 n} {b : Bytes} {off len : ℕ} :
    (memcpyInto dst b off len).Safe ↔ off + len ≤ b.length ∧ len ≤ n := by
  constructor
  · rintro ⟨v, hv⟩
    obtain ⟨hl, hn, -⟩ := memcpyInto_eq_ok.1 hv
    exact ⟨hl, hn⟩
  · rintro ⟨hl, hn⟩
    have hlen : ((b.drop off).take len ++ dst.toList.drop len).length = n := by
      rw [List.length_append, List.length_take, List.length_drop, List.length_drop,
        List.Vector.toList_length]
      omega
    exact ⟨.ofList _ hlen, memcpyInto_eq_ok.2 ⟨hl, hn, rfl⟩⟩

/-- Copying a terminated string that fits succeeds, and the copy holds the same string. -/
theorem strcpy_eq_ok {dst v : CArray UInt8 m} :
    strcpy dst s = .ok v ↔ Terminated s ∧ (cstr s.toList).length < m ∧
      v.toList = cstr s.toList ++ 0 :: dst.toList.drop ((cstr s.toList).length + 1) := by
  unfold strcpy
  rw [Checked.bind_eq_ok]
  constructor
  · rintro ⟨k, hk, hv⟩
    obtain ⟨ht, rfl⟩ := strlen_eq_ok.1 hk
    rw [take_cstr_succ ht, copyInto_eq_ok] at hv
    refine ⟨ht, ?_, ?_⟩
    · simpa [Nat.succ_le_iff] using hv.1
    · simpa using hv.2
  · rintro ⟨ht, hl, hv⟩
    refine ⟨_, strlen_eq ht, ?_⟩
    rw [take_cstr_succ ht, copyInto_eq_ok]
    simp only [List.length_append, List.length_singleton, List.append_assoc, List.singleton_append]
    exact ⟨hl, hv⟩

/-- A copy depends on the source only through its string. -/
theorem strcpy_congr {k : ℕ} {s' : CArray UInt8 k} (dst : CArray UInt8 m) (h : Terminated s)
    (h' : Terminated s') (heq : cstr s.toList = cstr s'.toList) : strcpy dst s = strcpy dst s' := by
  rw [strcpy, strcpy, strlen_eq h, strlen_eq h', Checked.ok_bind, Checked.ok_bind, take_cstr_succ h,
    take_cstr_succ h', heq]

/-- An array that begins with a NUL-free string and a NUL holds that string. -/
theorem cstr_of_toList_eq {t rest : Bytes} (ht : 0 ∉ t) (h : s.toList = t ++ 0 :: rest) :
    Terminated s ∧ cstr s.toList = t := by
  rw [Terminated, h]
  exact ⟨by simp, cstr_append_nul ht rest⟩

/-- A string that leaves room for its NUL is stored with it, and the array holds the string afterwards. -/
theorem copyInto_string (dst : CArray UInt8 m) {t : Bytes} (ht : 0 ∉ t) (hl : t.length < m) :
    ∃ v, copyInto dst (t ++ [0]) = .ok v ∧ Terminated v ∧ cstr v.toList = t := by
  obtain ⟨v, hcopy, hv⟩ := copyInto_of_le dst (t ++ [0]) (by simpa [Nat.succ_le_iff] using hl)
  rw [List.append_assoc, List.singleton_append] at hv
  exact ⟨v, hcopy, cstr_of_toList_eq ht hv⟩

/-- A string as long as the array leaves no room for its NUL. -/
theorem copyInto_string_of_ge (dst : CArray UInt8 m) {t : Bytes} (hl : m ≤ t.length) :
    copyInto dst (t ++ [0]) = .error (.write m m) := by
  apply dif_neg
  rw [List.length_append, List.length_singleton]
  omega

/-- An array and its string begin with the same character, unless the array begins with NUL. -/
theorem head?_cstr {b : Bytes} {c : UInt8} (hc : c ≠ 0) : (cstr b).head? = some c ↔ b.head? = some c := by
  cases b with
  | nil => rfl
  | cons x b =>
    by_cases hx : x = 0
    · simp [cstr, hx, hc.symm]
    · simp [cstr, hx]

/-- The array that holds a string and is zero behind it. -/
def CArray.ofString (t : Bytes) (h : t.length < n) : CArray UInt8 n :=
  .ofList (t ++ List.replicate (n - t.length) 0) (by simp; omega)

theorem cstr_ofString {t : Bytes} (ht : 0 ∉ t) (h : t.length < n) :
    Terminated (CArray.ofString t h) ∧ cstr (CArray.ofString t h).toList = t := by
  obtain ⟨k, hk⟩ : ∃ k, n - t.length = k + 1 := ⟨n - t.length - 1, by omega⟩
  have hlist : (CArray.ofString t h).toList = t ++ 0 :: List.replicate k 0 := by
    rw [CArray.ofString, CArray.toList_ofList, hk, List.replicate_succ]
  exact cstr_of_toList_eq ht hlist

theorem strcpy_of_lt (dst : CArray UInt8 m) (ht : Terminated s) (hl : (cstr s.toList).length < m) :
    ∃ v, strcpy dst s = .ok v ∧ Terminated v ∧ cstr v.toList = cstr s.toList := by
  obtain ⟨v, hcopy, hv⟩ := copyInto_string dst (nul_notMem_cstr _) hl
  refine ⟨v, ?_, hv⟩
  rw [strcpy, strlen_eq ht, Checked.ok_bind, take_cstr_succ ht]
  exact hcopy

end CStrings

end ChatRooms
