import Brainfuck.Proofs.Decimals
import Brainfuck.Time.Rfc3339
import Mathlib.Data.List.Basic

/-!
# Timestamps as text

Reading a timestamp undoes writing it. Every element of the layout finds its own text in front of
what the elements after it have written.

## Main Definitions

* `Timestamp.InCalendar` — a timestamp that the calendar has and the text can hold

## Main Results

* `ClockElement.readYear_append`, `ClockElement.readPair_append`, `ClockElement.readFraction_append`,
  `ClockElement.readZone_append` — each element is read back
* `Rfc3339.read_write` — a timestamp is read back

## Design Notes

A fraction ends where the digits end. Reading it back relies on the offset, which starts with a
letter or a sign.
-/

namespace Brainfuck

/-- A timestamp that the calendar has, in a year of at most four digits and at an offset of less
than a day. -/
structure Timestamp.InCalendar (t : Timestamp) : Prop where
  year_lt : t.year < 10000
  month_pos : 1 ≤ t.month
  month_le : t.month ≤ 12
  day_pos : 1 ≤ t.day
  day_le : t.day ≤ Timestamp.daysIn t.month t.year
  hour_lt : t.hour < 24
  minute_lt : t.minute < 60
  second_lt : t.second < 60
  nanosecond_lt : t.nanosecond < 1000000000
  offset_lt : t.offset.natAbs < 1440

theorem Timestamp.daysIn_le (month year : Nat) : daysIn month year ≤ 31 := by
  unfold daysIn
  split
  · split <;> decide
  all_goals decide

theorem twoDigits?_append {n : Nat} (hn : n < 100) (fixed : Bool) (rest : Bytes) :
    twoDigits? fixed (paddedDecimal 2 n ++ rest) = some (n, rest) := by
  obtain ⟨a, b, hab⟩ := List.length_eq_two.mp (length_paddedDecimal (by decide) hn)
  have hdigits : ∀ x ∈ [a, b], isDigit x = true := by
    rw [← hab]
    exact isDigit_of_mem_paddedDecimal
  have hvalue : 10 * digitValue a + digitValue b = n := by
    have hread := ofDecimal_paddedDecimal 2 n
    rw [hab] at hread
    simpa [ofDecimal] using hread
  rw [hab]
  simp [twoDigits?, hdigits a, hdigits b, hvalue]

namespace ClockElement

theorem readPair_append (e : ClockElement) (name : String) (fixed : Bool) {ok : Nat → Bool}
    (store : Nat → Timestamp) {n : Nat} (hn : n < 100) (hok : ok n = true) (rest : Bytes) :
    e.readPair name fixed ok store (paddedDecimal 2 n ++ rest) = .ok (store n, rest) := by
  simp [readPair, twoDigits?_append hn, hok]

theorem readYear_append (t : Timestamp) {year : Nat} (h : year < 10000) (rest : Bytes) :
    readYear t (paddedDecimal 4 year ++ rest) = .ok ({ t with year }, rest) := by
  have hlength : (paddedDecimal 4 year).length = 4 := length_paddedDecimal (by decide) h
  have htake : (paddedDecimal 4 year ++ rest).take 4 = paddedDecimal 4 year :=
    List.take_left' hlength
  have hdrop : (paddedDecimal 4 year ++ rest).drop 4 = rest := List.drop_left' hlength
  have hdigits : (paddedDecimal 4 year).all isDigit = true :=
    List.all_eq_true.mpr isDigit_of_mem_paddedDecimal
  simp only [readYear, htake, hdrop, hlength, hdigits, ofDecimal_paddedDecimal, beq_self_eq_true,
    Bool.and_self, if_true]

/-- What may follow a fraction: the fraction must end there. -/
def EndsFraction (rest : Bytes) : Prop :=
  ∃ b tail, rest = b :: tail ∧ isDigit b = false ∧ b ≠ 0x2E ∧ b ≠ 0x2C

theorem readFraction_append (t : Timestamp) (ht : t.nanosecond = 0) {n : Nat} (hn : n < 1000000000)
    {rest : Bytes} (hrest : EndsFraction rest) :
    readFraction t (fractionText 9 n ++ rest) = ({ t with nanosecond := n }, rest) := by
  obtain ⟨b, tail, rfl, hb, hpoint, hcomma⟩ := hrest
  by_cases hzero : n = 0
  · subst hzero
    have hsame : { t with nanosecond := 0 } = t := by
      rw [← ht]
    simp [fractionText, readFraction, hpoint, hcomma, hsame]
  · obtain ⟨digits, k, htext, hne, hdigits, hlength, hvalue⟩ :=
      fractionText_eq (Nat.succ_pos 8) hn hzero
    have htake : (digits ++ b :: tail).takeWhile isDigit = digits := by
      rw [List.takeWhile_append_of_pos hdigits, List.takeWhile_cons, hb]
      simp
    have hkept : digits.take 9 = digits := List.take_of_length_le (by omega)
    have hpad : 9 - digits.length = k := by omega
    rw [htext, List.cons_append, readFraction]
    simp [htake, hkept, hpad, hvalue, hne]

end ClockElement

theorem Rfc3339.endsFraction_writeOffset (offset : Int) :
    ClockElement.EndsFraction (writeOffset offset) := by
  unfold writeOffset
  split
  · exact ⟨0x5A, [], rfl, by decide⟩
  · split
    · exact ⟨0x2D, _, rfl, by decide⟩
    · exact ⟨0x2B, _, rfl, by decide⟩

/-- The text of an offset with a sign. -/
theorem Rfc3339.writeOffset_eq {offset : Int} (h : offset ≠ 0) :
    writeOffset offset = (if offset < 0 then 0x2D else 0x2B) ::
      (paddedDecimal 2 (offset.natAbs / 60) ++ 0x3A :: paddedDecimal 2 (offset.natAbs % 60)) := by
  rw [writeOffset, if_neg h]
  split <;> simp [show text "-" = [0x2D] from rfl, show text "+" = [0x2B] from rfl,
    show text ":" = [0x3A] from rfl]

namespace ClockElement

/-- An offset with a sign is read from its hours and minutes. -/
theorem readZone_signed (t : Timestamp) {sign : UInt8} {hours minutes : Nat}
    (hsign : sign = 0x2B ∨ sign = 0x2D) (hhours : hours < 24) (hminutes : minutes < 60)
    (rest : Bytes) :
    readZone t (sign :: (paddedDecimal 2 hours ++ 0x3A :: paddedDecimal 2 minutes) ++ rest) =
      .ok ({ t with offset := if sign = 0x2D then -(hours * 60 + minutes : Int)
                              else (hours * 60 + minutes : Int) }, rest) := by
  have hreadHours := twoDigits?_append (show hours < 100 by omega) true []
  have hreadMinutes := twoDigits?_append (show minutes < 100 by omega) true []
  obtain ⟨h₁, h₂, hh⟩ :=
    List.length_eq_two.mp (length_paddedDecimal (Nat.succ_pos 1) (show hours < 10 ^ 2 by omega))
  obtain ⟨m₁, m₂, hm⟩ :=
    List.length_eq_two.mp (length_paddedDecimal (Nat.succ_pos 1) (show minutes < 10 ^ 2 by omega))
  rw [List.append_nil] at hreadHours hreadMinutes
  rw [hh] at hreadHours ⊢
  rw [hm] at hreadMinutes ⊢
  have hhoursOk : ¬ 24 < hours := by omega
  have hminutesOk : ¬ 60 < minutes := by omega
  rcases hsign with rfl | rfl <;>
    simp [readZone, hreadHours, hreadMinutes, hhoursOk, hminutesOk]

/-- An offset is read back. -/
theorem readZone_append (t : Timestamp) {offset : Int} (h : offset.natAbs < 1440) (rest : Bytes) :
    readZone t (Rfc3339.writeOffset offset ++ rest) = .ok ({ t with offset }, rest) := by
  by_cases hzero : offset = 0
  · subst hzero
    rfl
  · have hhours : offset.natAbs / 60 < 24 := by omega
    have hminutes : offset.natAbs % 60 < 60 := Nat.mod_lt _ (by decide)
    have hsize : ((offset.natAbs / 60 : Nat) : Int) * 60 + ((offset.natAbs % 60 : Nat) : Int) =
        offset.natAbs := by omega
    rw [Rfc3339.writeOffset_eq hzero]
    by_cases hneg : offset < 0
    · rw [if_pos hneg, readZone_signed t (.inr rfl) hhours hminutes, hsize, if_pos rfl]
      have hoffset : -(offset.natAbs : Int) = offset := by omega
      rw [hoffset]
    · rw [if_neg hneg, readZone_signed t (.inl rfl) hhours hminutes, hsize, if_neg (by decide)]
      have hoffset : (offset.natAbs : Int) = offset := by omega
      rw [hoffset]

end ClockElement

namespace Layout

theorem dropLiteral_append (before value : Bytes) :
    dropLiteral before (before ++ value) = .ok value := by
  induction before with
  | nil => rfl
  | cons b before ih => rw [List.cons_append, dropLiteral, if_pos rfl, ih]

/-- Where an element is read, the reading goes on with those after it. -/
theorem readElements_append {before : Bytes} (e : ClockElement) {layout : Layout}
    {t t' : Timestamp} {value rest : Bytes} (h : e.read t value = .ok (t', rest)) :
    readElements ((before, e) :: layout) t (before ++ value) = readElements layout t' rest := by
  rw [readElements, dropLiteral_append]
  simp only [h]

end Layout

/-- The elements of a timestamp are read back one after the other. -/
theorem Rfc3339.readElements_write {t : Timestamp} (h : t.InCalendar) :
    layout.readElements Layout.unread (write t) = .ok (t, []) := by
  have hmonth := h.month_le
  have hday : t.day < 100 := by
    have := h.day_le
    have := Timestamp.daysIn_le t.month t.year
    omega
  have hhour := h.hour_lt
  have hminute := h.minute_lt
  have hsecond := h.second_lt
  simp only [write, List.append_assoc]
  refine (Layout.readElements_append .year (ClockElement.readYear_append _ h.year_lt _)).trans ?_
  refine (Layout.readElements_append .month
    (ClockElement.readPair_append _ _ _ _ (by omega) (by simp [h.month_pos, hmonth]) _)).trans ?_
  refine (Layout.readElements_append .day
    (ClockElement.readPair_append _ _ _ _ hday rfl _)).trans ?_
  refine (Layout.readElements_append .hour
    (ClockElement.readPair_append _ _ _ _ (by omega) (by simp [hhour]) _)).trans ?_
  refine (Layout.readElements_append .minute
    (ClockElement.readPair_append _ _ _ _ (by omega) (by simp [hminute]) _)).trans ?_
  refine (Layout.readElements_append .second
    (ClockElement.readPair_append _ _ _ _ (by omega) (by simp [hsecond]) _)).trans ?_
  refine (Layout.readElements_append .fraction (congrArg Except.ok
    (ClockElement.readFraction_append _ rfl h.nanosecond_lt (endsFraction_writeOffset _)))).trans ?_
  rw [← List.append_nil (writeOffset t.offset)]
  exact Layout.readElements_append .zone (ClockElement.readZone_append _ h.offset_lt [])

/-- **A timestamp of the calendar is read back from its text.** -/
theorem Rfc3339.read_write {t : Timestamp} (h : t.InCalendar) : read (write t) = .ok t := by
  have hday : ¬ t.day < 1 := Nat.not_lt.mpr h.day_pos
  have hmonth : ¬ Timestamp.daysIn t.month t.year < t.day := Nat.not_lt.mpr h.day_le
  simp [read, Layout.read, readElements_write h, hday, hmonth]

end Brainfuck
