import Mathlib.Data.List.DropRight
import Mathlib.Tactic.Ring
import ChatRooms.Lib.Format

/-!
# Formatted input

The part of `sscanf` that matches single characters and white space and converts `%ks` and `%hhd`.
The input is what stands before the NUL of the scanned string; the result is the list of values that
were converted, so its length is the number `sscanf` returns.

A `%ks` stores the next word of the input, or its first `k` characters (`sscanf_str_of_fits`,
`sscanf_str_of_long`).  `scanInt_decimal` is the round trip of `%d` and `%hhd`: scanning an integer in decimal
gives the integer, of which `%hhd` stores the value modulo 256 when it fits a `long`.
-/

namespace ChatRooms

/-- `isspace` in the C locale. -/
def isSpace (c : UInt8) : Bool := c == 32 || 9 ≤ c && c ≤ 13

/-- `isdigit` -/
def isDigit (c : UInt8) : Bool := 48 ≤ c && c ≤ 57

def skipSpace (input : Bytes) : Bytes := input.dropWhile isSpace

/-- The value of a sequence of digits, after the digits worth `acc`. -/
def digitsValue (acc : ℕ) (digits : Bytes) : ℕ := digits.foldl (fun n c => 10 * n + (c.toNat - 48)) acc

/-- At least one digit, and what follows the digits. -/
def scanNat (input : Bytes) : Option (ℕ × Bytes) :=
  match input.takeWhile isDigit with
  | [] => none
  | digits => some (digitsValue 0 digits, input.dropWhile isDigit)

/-- An optional sign and at least one digit, and what follows them. -/
def scanInt (input : Bytes) : Option (ℤ × Bytes) :=
  match input with
  | [] => none
  | c :: rest =>
    if c = 45 then (scanNat rest).map fun (n, rest) => (-n, rest)
    else if c = 43 then (scanNat rest).map fun (n, rest) => (n, rest)
    else (scanNat input).map fun (n, rest) => (n, rest)

/-- A scanned number as a 64-bit `long`, as `strtol` has it: one that does not fit becomes the nearest that does. -/
def toLong (n : ℤ) : ℤ := max (-2 ^ 63) (min n (2 ^ 63 - 1))

theorem toLong_of_fits {n : ℤ} (h : -2 ^ 63 ≤ n ∧ n < 2 ^ 63) : toLong n = n := by
  unfold toLong
  omega

/-- The byte that `%hhd` stores for a number. -/
def storedByte (n : ℤ) : UInt8 := UInt8.ofNat (toLong n % 256).toNat

/-- What a format is made of: a character, white space, `%ks` and `%hhd`. -/
inductive Directive where
  | char (c : UInt8)
  | space
  | str (width : ℕ)
  | hhd
deriving DecidableEq, Repr

/-- A converted value. -/
inductive Scanned where
  | word (s : Bytes)
  | byte (n : UInt8)
deriving DecidableEq, Repr

/-- Scans the input for the directives of a format, up to the first that fails. -/
def sscanf : Bytes → List Directive → List Scanned
  | _, [] => []
  | input, .char c :: fmt =>
    match input with
    | [] => []
    | b :: rest => if b = c then sscanf rest fmt else []
  | input, .space :: fmt => sscanf (skipSpace input) fmt
  | input, .str width :: fmt =>
    let input := skipSpace input
    match (input.takeWhile fun c => !isSpace c).take width with
    | [] => []
    | word => .word word :: sscanf (input.drop word.length) fmt
  | input, .hhd :: fmt =>
    match scanInt (skipSpace input) with
    | none => []
    | some (n, rest) => .byte (storedByte n) :: sscanf rest fmt

/-! ## Words -/

/-- The first word of an input. -/
def word (input : Bytes) : Bytes := (skipSpace input).takeWhile fun c => !isSpace c

/-- What stands behind the first word. -/
def afterWord (input : Bytes) : Bytes := (skipSpace input).dropWhile fun c => !isSpace c

theorem drop_word (input : Bytes) : (skipSpace input).drop (word input).length = afterWord input := by
  have hsplit : word input ++ afterWord input = skipSpace input := List.takeWhile_append_dropWhile
  rw [← hsplit, List.drop_left]

theorem mem_of_mem_word {input : Bytes} {c : UInt8} (h : c ∈ word input) : c ∈ input := by
  apply (List.dropWhile_suffix isSpace).subset
  exact (List.takeWhile_prefix _).subset h

theorem mem_of_mem_afterWord {input : Bytes} {c : UInt8} (h : c ∈ afterWord input) : c ∈ input := by
  apply (List.dropWhile_suffix isSpace).subset
  exact (List.dropWhile_suffix _).subset h

@[simp] theorem skipSpace_skipSpace (input : Bytes) : skipSpace (skipSpace input) = skipSpace input :=
  List.dropWhile_idempotent _ _

theorem sscanf_str_nil {input : Bytes} (h : word input = []) (width : ℕ) (fmt : List Directive) :
    sscanf input (.str width :: fmt) = [] := by
  change (skipSpace input).takeWhile (fun c => !isSpace c) = [] at h
  simp only [sscanf, h, List.take_nil]

theorem sscanf_str_of_fits {input : Bytes} {width : ℕ} (hne : word input ≠ [])
    (hfits : (word input).length ≤ width) (fmt : List Directive) :
    sscanf input (.str width :: fmt) = .word (word input) :: sscanf (afterWord input) fmt := by
  have htake : ((skipSpace input).takeWhile fun c => !isSpace c).take width = word input :=
    List.take_of_length_le hfits
  obtain ⟨c, rest, hword⟩ := List.exists_cons_of_ne_nil hne
  rw [← drop_word, sscanf, htake, hword]

theorem sscanf_str_of_long {input : Bytes} {width : ℕ} (hpos : 0 < width)
    (hlong : width ≤ (word input).length) (fmt : List Directive) :
    sscanf input (.str width :: fmt) =
      .word ((word input).take width) :: sscanf ((skipSpace input).drop width) fmt := by
  have hlen : ((word input).take width).length = width := List.length_take_of_le hlong
  have htake : ((skipSpace input).takeWhile fun c => !isSpace c).take width = (word input).take width := rfl
  obtain ⟨c, rest, hword⟩ := List.exists_cons_of_length_pos (hpos.trans_eq hlen.symm)
  rw [hword] at hlen
  rw [sscanf, htake, hword]
  dsimp only
  rw [hlen]

/-! ## Scanning what was printed -/

theorem isDigit_of_mem_digits {fuel n : ℕ} {c : UInt8} (h : c ∈ digits fuel n) : isDigit c = true := by
  obtain ⟨h1, h2⟩ := digits_range h
  simp [isDigit, h1, h2]

theorem digitsValue_append (acc : ℕ) (a b : Bytes) :
    digitsValue acc (a ++ b) = digitsValue (digitsValue acc a) b := List.foldl_append

/-- The digits of a number have its value; the fuel has to suffice for all of them. -/
theorem digitsValue_digits {fuel n : ℕ} (h : n < fuel) : digitsValue 0 (digits fuel n) = n := by
  have hdigit : ∀ d < 10, (UInt8.ofNat (48 + d)).toNat - 48 = d := by decide
  induction fuel generalizing n with
  | zero => omega
  | succ fuel ih =>
    rw [digits]
    split
    · rename_i hn
      simp only [digitsValue, List.foldl_cons, List.foldl_nil, hdigit n hn]
      omega
    · rename_i hn
      rw [digitsValue_append, ih (by omega)]
      simp only [digitsValue, List.foldl_cons, List.foldl_nil, hdigit _ (Nat.mod_lt n (by decide))]
      omega

/-- Scanning digits that no further digit follows. -/
theorem scanNat_digits {fuel n : ℕ} (h : n < fuel) {rest : Bytes}
    (hrest : ∀ c ∈ rest.head?, isDigit c = false) :
    scanNat (digits fuel n ++ rest) = some (n, rest) := by
  have hall : ∀ c ∈ digits fuel n, isDigit c = true := fun c hc => isDigit_of_mem_digits hc
  have htake : (digits fuel n ++ rest).takeWhile isDigit = digits fuel n := by
    rw [List.takeWhile_append_of_pos hall]
    cases rest with
    | nil => simp
    | cons c rest => simp [hrest c rfl]
  have hdrop : (digits fuel n ++ rest).dropWhile isDigit = rest := by
    rw [List.dropWhile_append_of_pos hall]
    cases rest with
    | nil => rfl
    | cons c rest => simp [hrest c rfl]
  have hvalue := digitsValue_digits h
  obtain ⟨fuel, rfl⟩ : ∃ k, fuel = k + 1 := ⟨fuel - 1, by omega⟩
  rw [scanNat, htake, hdrop]
  cases hd : digits (fuel + 1) n with
  | nil => exact absurd hd (digits_ne_nil fuel n)
  | cons c tail =>
    dsimp only
    rw [← hd, hvalue]

/-- Scanning a decimal integer that no further digit follows gives the integer back. -/
theorem scanInt_decimal (n : ℤ) {rest : Bytes} (hrest : ∀ c ∈ rest.head?, isDigit c = false) :
    scanInt (decimal n ++ rest) = some (n, rest) := by
  cases n with
  | ofNat k =>
    have hscan := scanNat_digits (Nat.lt_succ_self k) hrest
    change scanInt (digits (k + 1) k ++ rest) = _
    change scanNat (digits (k + 1) k ++ rest) = _ at hscan
    -- The first character is a digit, so no sign.
    obtain ⟨c, tail, hd⟩ := List.exists_cons_of_ne_nil (digits_ne_nil k k)
    have hc : isDigit c = true := by
      have hmem : c ∈ digits (k + 1) k := by
        rw [hd]
        exact List.mem_cons_self
      exact isDigit_of_mem_digits hmem
    have hminus : c ≠ 45 := by
      rintro rfl
      cases hc
    have hplus : c ≠ 43 := by
      rintro rfl
      cases hc
    rw [hd, List.cons_append] at hscan ⊢
    rw [scanInt, if_neg hminus, if_neg hplus, hscan]
    rfl
  | negSucc k =>
    have hscan := scanNat_digits (Nat.lt_succ_self (k + 1)) hrest
    change scanInt (45 :: (digits (k + 2) (k + 1) ++ rest)) = _
    rw [scanInt, if_pos rfl, hscan]
    rfl

/-- An integer in decimal does not begin with white space. -/
theorem skipSpace_decimal (n : ℤ) (rest : Bytes) : skipSpace (decimal n ++ rest) = decimal n ++ rest := by
  have hspace : ∀ c : UInt8, isDigit c = true → isSpace c = false := by
    intro c hc
    simp only [isDigit, Bool.and_eq_true, decide_eq_true_eq] at hc
    have hlow : 48 ≤ c.toNat := UInt8.le_iff_toNat_le.1 hc.1
    have h9 : ¬ c ≤ 13 := fun h => by
      have : c.toNat ≤ 13 := UInt8.le_iff_toNat_le.1 h
      omega
    have h32 : c ≠ 32 := by
      rintro rfl
      exact absurd hc.1 (by decide)
    simp [isSpace, h9, h32]
  cases n with
  | ofNat k =>
    change skipSpace (digits (k + 1) k ++ rest) = digits (k + 1) k ++ rest
    obtain ⟨c, tail, hd⟩ := List.exists_cons_of_ne_nil (digits_ne_nil k k)
    have hc : isDigit c = true := by
      have hmem : c ∈ digits (k + 1) k := by
        rw [hd]
        exact List.mem_cons_self
      exact isDigit_of_mem_digits hmem
    rw [hd, List.cons_append, skipSpace, List.dropWhile_cons_of_neg (by simp [hspace c hc])]
  | negSucc k => rfl

end ChatRooms
