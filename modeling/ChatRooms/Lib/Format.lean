import ChatRooms.Lib.Memory

/-!
# Formatted output

The part of the `printf` family that writes integers with `%d` and strings with `%s` into a buffer
of a fixed size.

* `decimal` writes an integer in decimal;
* `format` expands a format string;
* `vsnprintf` writes the expansion, cut to the buffer's size, and returns its full length.
-/

namespace ChatRooms

/-- The characters of a literal. -/
def ascii (s : String) : Bytes := s.toList.map fun c => UInt8.ofNat c.toNat

/-- The decimal digits of `n`, of which there are at most `fuel`. -/
def digits : ℕ → ℕ → Bytes
  | 0, _ => []
  | fuel + 1, n =>
    if n < 10 then [UInt8.ofNat (48 + n)] else digits fuel (n / 10) ++ [UInt8.ofNat (48 + n % 10)]

/-- An integer in decimal, a negative one behind a minus sign. -/
def decimal : ℤ → Bytes
  | .ofNat n => digits (n + 1) n
  | .negSucc n => 45 :: digits (n + 2) (n + 1)

/-- An argument of a variadic call: an `int`, or a pointer to a block that is read as a string. -/
inductive FormatArg where
  | int (n : ℤ)
  | str (block : Bytes)

/-- Expands a format string; a string argument is read up to its NUL. -/
def format : Bytes → List FormatArg → Checked Bytes
  | [], _ => return []
  | 37 :: 100 :: fmt, .int n :: args => do return decimal n ++ (← format fmt args)
  | 37 :: 115 :: fmt, .str block :: args => do
    if 0 ∈ block then return cstr block ++ (← format fmt args)
    else .error (.read block.length block.length)
  | c :: fmt, args => do return c :: (← format fmt args)

/-- Writes the expansion of a format into an array, with a NUL and cut to the array's size, and
returns the length of the whole expansion. -/
def vsnprintf {n : ℕ} (dst : CArray UInt8 n) (fmt : Bytes) (args : List FormatArg) :
    Checked (CArray UInt8 n × ℕ) := do
  let text ← format fmt args
  if n = 0 then return (dst, text.length)
  else return (← copyInto dst (text.take (n - 1) ++ [0]), text.length)

/-! ## Digits -/

theorem digits_ne_nil (fuel n : ℕ) : digits (fuel + 1) n ≠ [] := by
  rw [digits]
  split <;> simp

/-- Every character is a digit. -/
theorem digits_range {fuel n : ℕ} {c : UInt8} (h : c ∈ digits fuel n) : 48 ≤ c ∧ c ≤ 57 := by
  have hdigit : ∀ d < 10, 48 ≤ UInt8.ofNat (48 + d) ∧ UInt8.ofNat (48 + d) ≤ 57 := by decide
  induction fuel generalizing n with
  | zero => cases h
  | succ fuel ih =>
    rw [digits] at h
    split at h
    · rename_i hn
      obtain rfl := List.mem_singleton.1 h
      exact hdigit n hn
    · rcases List.mem_append.1 h with h | h
      · exact ih h
      · obtain rfl := List.mem_singleton.1 h
        exact hdigit _ (Nat.mod_lt _ (by decide))

theorem length_digits_le {fuel n k : ℕ} (hk : 1 ≤ k) (h : n < 10 ^ k) : (digits fuel n).length ≤ k := by
  induction fuel generalizing n k with
  | zero => exact Nat.zero_le _
  | succ fuel ih =>
    rw [digits]
    split
    · exact hk
    · rename_i hn
      obtain ⟨k, rfl⟩ : ∃ j, k = j + 1 := ⟨k - 1, by omega⟩
      rw [pow_succ] at h
      have hk1 : 1 ≤ k := by
        rcases k with _ | k
        · omega
        · omega
      have := ih (n := n / 10) hk1 (by omega)
      rw [List.length_append, List.length_singleton]
      omega

theorem nul_notMem_decimal (n : ℕ) : 0 ∉ decimal n := fun h => by
  have := (digits_range h).1
  exact absurd this (by decide)

/-! ## Writing a text that fits -/

/-- An expansion that has no NUL and leaves room for one is written whole. -/
theorem vsnprintf_of_lt {n : ℕ} (dst : CArray UInt8 n) {fmt text : Bytes} {args : List FormatArg}
    (htext : format fmt args = .ok text) (h0 : 0 ∉ text) (hlt : text.length < n) :
    ∃ v, vsnprintf dst fmt args = .ok (v, text.length) ∧ Terminated v ∧ cstr v.toList = text := by
  have hcut : text.take (n - 1) = text := List.take_of_length_le (by omega)
  obtain ⟨v, hv, hstr⟩ := copyInto_string dst h0 hlt
  refine ⟨v, ?_, hstr⟩
  rw [vsnprintf, htext, Checked.ok_bind, if_neg (by omega), hcut, hv]
  rfl

end ChatRooms
