import Brainfuck.Time.Duration
import Mathlib.Algebra.Group.Nat.Defs

/-!
# Decimal notation

Reading undoes writing: the digits of a number denote it, also with zeros in front, and trailing
zeros of a fraction may be left out.

## Main Results

* `ofDecimal_decimal`, `ofDecimal_paddedDecimal` — the digits of a number denote it
* `length_paddedDecimal` — a number that fits is written with the given number of digits
* `fractionText_eq`, `getLast?_fractionText_ne` — the digits of a fraction are those of the number
  without trailing zeros
-/

namespace Brainfuck

theorem decimal_of_lt {n : Nat} (h : n < 10) : decimal n = [(Nat.digitChar n).toUInt8] := by
  rw [decimal, Nat.toDigits_of_lt_base h, List.map_singleton]

theorem decimal_of_le {n : Nat} (h : 10 ≤ n) :
    decimal n = decimal (n / 10) ++ [(Nat.digitChar (n % 10)).toUInt8] := by
  rw [decimal, Nat.toDigits_of_base_le (by decide) h, List.map_append, List.map_singleton, decimal]

/-- The digit of a number below ten is one, and has its value. -/
theorem digitChar_spec : ∀ d < 10, isDigit (Nat.digitChar d).toUInt8 = true ∧
    digitValue (Nat.digitChar d).toUInt8 = d := by
  decide

theorem isDigit_of_mem_decimal {n : Nat} : ∀ b ∈ decimal n, isDigit b = true := by
  induction n using Nat.strongRecOn with
  | ind n ih =>
      intro b hb
      by_cases hn : n < 10
      · rw [decimal_of_lt hn, List.mem_singleton] at hb
        rw [hb]
        exact (digitChar_spec n hn).1
      · rw [decimal_of_le (Nat.not_lt.mp hn), List.mem_append, List.mem_singleton] at hb
        rcases hb with hb | hb
        · exact ih (n / 10) (by omega) b hb
        · rw [hb]
          exact (digitChar_spec (n % 10) (by omega)).1

theorem ofDecimal_concat (t : Bytes) (b : UInt8) :
    ofDecimal (t ++ [b]) = 10 * ofDecimal t + digitValue b := by
  rw [ofDecimal, List.foldl_append]
  rfl

theorem ofDecimal_decimal (n : Nat) : ofDecimal (decimal n) = n := by
  induction n using Nat.strongRecOn with
  | ind n ih =>
      by_cases hn : n < 10
      · rw [decimal_of_lt hn]
        show 10 * 0 + digitValue (Nat.digitChar n).toUInt8 = n
        rw [(digitChar_spec n hn).2, Nat.mul_zero, Nat.zero_add]
      · have hvalue := (digitChar_spec (n % 10) (by omega)).2
        rw [decimal_of_le (Nat.not_lt.mp hn), ofDecimal_concat, ih (n / 10) (by omega), hvalue]
        omega

theorem ofDecimal_zeros_append (k : Nat) (t : Bytes) :
    ofDecimal (List.replicate k 0x30 ++ t) = ofDecimal t := by
  induction k with
  | zero => rfl
  | succ k ih =>
      rw [List.replicate_succ, List.cons_append, ← ih]
      rfl

theorem ofDecimal_append_zeros (t : Bytes) (k : Nat) :
    ofDecimal (t ++ List.replicate k 0x30) = ofDecimal t * 10 ^ k := by
  induction k with
  | zero => simp
  | succ k ih =>
      have hzero : digitValue 0x30 = 0 := rfl
      rw [List.replicate_succ', ← List.append_assoc, ofDecimal_concat, ih, hzero, Nat.pow_succ]
      ac_rfl

/-! ### Numbers with zeros in front -/

theorem ofDecimal_paddedDecimal (width n : Nat) : ofDecimal (paddedDecimal width n) = n := by
  rw [paddedDecimal, padLeft, ofDecimal_zeros_append, ofDecimal_decimal]

theorem isDigit_of_mem_paddedDecimal {width n : Nat} :
    ∀ b ∈ paddedDecimal width n, isDigit b = true := by
  intro b hb
  rw [paddedDecimal, padLeft, List.mem_append] at hb
  rcases hb with hb | hb
  · rw [List.eq_of_mem_replicate hb]
    rfl
  · exact isDigit_of_mem_decimal b hb

theorem length_paddedDecimal {width n : Nat} (hwidth : 0 < width) (hn : n < 10 ^ width) :
    (paddedDecimal width n).length = width := by
  have hlength : (decimal n).length ≤ width := by
    rw [decimal, List.length_map]
    exact (Nat.length_toDigits_le_iff (by decide) hwidth).mpr hn
  rw [paddedDecimal, padLeft, List.length_append, List.length_replicate]
  omega

/-! ### Fractions -/

/-- Digits without trailing zeros: the zeros that are left out follow them. -/
theorem exists_zeros_of_trimmed (t : Bytes) :
    ∃ k, t = (t.reverse.dropWhile (· == 0x30)).reverse ++ List.replicate k 0x30 := by
  have hzero : ∀ b ∈ t.reverse.takeWhile (· == 0x30), b = 0x30 := by
    intro b hb
    have hzeros := List.all_eq_true.mp List.all_takeWhile b hb
    simpa using hzeros
  refine ⟨(t.reverse.takeWhile (· == 0x30)).length, ?_⟩
  calc t = (t.reverse.takeWhile (· == 0x30) ++ t.reverse.dropWhile (· == 0x30)).reverse := by
        rw [List.takeWhile_append_dropWhile, List.reverse_reverse]
    _ = (t.reverse.dropWhile (· == 0x30)).reverse ++
          (t.reverse.takeWhile (· == 0x30)).reverse := by
        rw [List.reverse_append]
    _ = (t.reverse.dropWhile (· == 0x30)).reverse ++
          List.replicate (t.reverse.takeWhile (· == 0x30)).length 0x30 := by
        rw [← List.reverse_replicate, ← List.eq_replicate_of_mem hzero]

theorem fractionText_eq {digits n : Nat} (hdigits : 0 < digits) (hn : n < 10 ^ digits) (h : n ≠ 0) :
    ∃ t k, fractionText digits n = 0x2E :: t ∧ t ≠ [] ∧ (∀ b ∈ t, isDigit b = true) ∧
      t.length + k = digits ∧ ofDecimal t * 10 ^ k = n := by
  obtain ⟨k, hk⟩ := exists_zeros_of_trimmed (paddedDecimal digits n)
  generalize ht : ((paddedDecimal digits n).reverse.dropWhile (· == 0x30)).reverse = t at hk
  have hvalue : ofDecimal t * 10 ^ k = n := by
    rw [← ofDecimal_append_zeros, ← hk, ofDecimal_paddedDecimal]
  refine ⟨t, k, ?_, ?_, ?_, ?_, hvalue⟩
  · simp only [fractionText, if_neg h, ht]
  · rintro rfl
    exact h (by rw [← hvalue]; exact Nat.zero_mul _)
  · intro b hb
    exact isDigit_of_mem_paddedDecimal b (by rw [hk]; exact List.mem_append_left _ hb)
  · have hlength := length_paddedDecimal hdigits hn
    rw [hk, List.length_append, List.length_replicate] at hlength
    exact hlength

/-- A fraction does not end in a zero. -/
theorem getLast?_fractionText_ne (digits n : Nat) :
    (fractionText digits n).getLast? ≠ some 0x30 := by
  unfold fractionText
  split
  · simp
  · have hhead := List.head?_dropWhile_not (· == 0x30) (paddedDecimal digits n).reverse
    rw [List.getLast?_cons, List.getLast?_reverse]
    cases hfirst : ((paddedDecimal digits n).reverse.dropWhile (· == 0x30)).head? with
    | none => decide
    | some b =>
        rw [hfirst] at hhead
        simpa using hhead

end Brainfuck
